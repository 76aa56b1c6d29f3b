import Narrative.Text.Basic
import Narrative.Text.Blank
import Narrative.Text.Extending
import Narrative.Text.Numeral
import Narrative.Text.Printable
import Narrative.Text.Quoted
import Narrative.Text.Unassigned
import Narrative.Number.Binary64
import Narrative.Number.Decimal
import Narrative.Number.Written
import Narrative.Host
import Narrative.Template.Basic
import Narrative.Template.Compact
import Narrative.Template.Item
import Narrative.Template.Scan
import Narrative.Template.Segment
import Narrative.Content.Basic
import Narrative.Content.Context
import Narrative.Content.Value
import Narrative.Compound.Basic
import Narrative.Compound.Convert
import Narrative.Script.Draft
import Narrative.Script.Indent
import Narrative.Script.Issue
import Narrative.Script.Parse
import Narrative.Script.Statement
import Narrative.Script.Tree
import Narrative.Reader.Advance
import Narrative.Reader.Basic
import Narrative.Reader.Playthrough
import Narrative.Ron.Feature
import Narrative.Ron.Issue
import Narrative.Ron.Options
import Narrative.Ron.Record
import Narrative.Ron.Token
import Narrative.Tool.Directory
import Narrative.Tool.File
import Narrative.Tool.Lint
import Narrative.Tool.Options
import Narrative.Tool.Play
import Narrative.Tool.Report
import Narrative.Tool.Story
import Narrative.Main
import Narrative.Proofs.Text.Concatenating
import Narrative.Proofs.Text.Merging
import Narrative.Proofs.Text.Trimming
import Narrative.Proofs.Number.Hexadecimal
import Narrative.Proofs.Number.Rounding
import Narrative.Proofs.Template.Cutting
import Narrative.Proofs.Template.Grammar
import Narrative.Proofs.Template.Joining
import Narrative.Proofs.Template.Offences
import Narrative.Proofs.Template.Ordering
import Narrative.Proofs.Template.Rendering
import Narrative.Proofs.Template.Renumbering
import Narrative.Proofs.Template.Scanning
import Narrative.Proofs.Template.Segments
import Narrative.Proofs.Content.Gates
import Narrative.Proofs.Content.Integers
import Narrative.Proofs.Content.Numbers
import Narrative.Proofs.Compound.Cells
import Narrative.Proofs.Compound.Editing
import Narrative.Proofs.Compound.Rendering
import Narrative.Proofs.Compound.Roundtrip
import Narrative.Proofs.Compound.Searching
import Narrative.Proofs.Compound.Writing
import Narrative.Proofs.Script.Arena
import Narrative.Proofs.Script.Forest
import Narrative.Proofs.Script.Headers
import Narrative.Proofs.Script.Lines
import Narrative.Proofs.Script.Nesting
import Narrative.Proofs.Script.Outcome
import Narrative.Proofs.Script.Placement
import Narrative.Proofs.Script.Reading
import Narrative.Proofs.Script.Reports
import Narrative.Proofs.Script.Resolution
import Narrative.Proofs.Script.Root
import Narrative.Proofs.Script.Sections
import Narrative.Proofs.Script.Spine
import Narrative.Proofs.Script.Stored
import Narrative.Proofs.Script.Targets
import Narrative.Proofs.Script.Tidying
import Narrative.Proofs.Script.Units
import Narrative.Proofs.Script.WellFormed
import Narrative.Proofs.Outline.Basic
import Narrative.Proofs.Outline.Numbering
import Narrative.Proofs.Outline.Printed
import Narrative.Proofs.Outline.Reread
import Narrative.Proofs.Outline.Roundtrip
import Narrative.Proofs.Reader.Calls
import Narrative.Proofs.Reader.Choices
import Narrative.Proofs.Reader.Ending
import Narrative.Proofs.Reader.Fields
import Narrative.Proofs.Reader.Interpreter
import Narrative.Proofs.Reader.Mirroring
import Narrative.Proofs.Reader.Moves
import Narrative.Proofs.Reader.Once
import Narrative.Proofs.Reader.Outputs
import Narrative.Proofs.Reader.Ranking
import Narrative.Proofs.Reader.Refinement
import Narrative.Proofs.Reader.Refusals
import Narrative.Proofs.Reader.Retrying
import Narrative.Proofs.Reader.Session
import Narrative.Proofs.Reader.Sharing
import Narrative.Proofs.Reader.Stack
import Narrative.Proofs.Reader.Termination
import Narrative.Proofs.Tool.Answering
import Narrative.Proofs.Tool.Linting
import Narrative.Proofs.Tool.Playing
import Narrative.Proofs.Tool.Protocol
import Narrative.Proofs.Tool.Session
