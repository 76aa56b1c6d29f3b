import Narrative.Proofs.Template.Scanning
import Narrative.Proofs.Text.Trimming

namespace Narrative

namespace Numeral

-- One ASCII digit or more
def IsDigits (ds : Text) : Prop := ds ≠ [] ∧ ∀ c ∈ ds, c.isDigit = true

-- A whole number as it is written, with a sign or without
inductive Writes : Text → Int → Prop
  | bare {ds : Text} (h : IsDigits ds) : Writes ds (digitsValue ds)
  | plus {ds : Text} (h : IsDigits ds) : Writes ('+' :: ds) (digitsValue ds)
  | minus {ds : Text} (h : IsDigits ds) : Writes ('-' :: ds) (-digitsValue ds)

theorem readDigits?_eq_some_iff {bound n : Nat} {ds : Text} :
    readDigits? bound ds = some n ↔ IsDigits ds ∧ n = digitsValue ds ∧ n < bound := by
  unfold readDigits? IsDigits
  split
  · next h =>
    rw [Option.some.injEq]
    constructor
    · rintro rfl
      exact ⟨⟨h.1, List.all_eq_true.1 h.2.1⟩, rfl, h.2.2⟩
    · rintro ⟨-, rfl, -⟩
      rfl
  · next h =>
    simp only [reduceCtorEq, false_iff]
    rintro ⟨hdigits, rfl, hlt⟩
    exact h ⟨hdigits.1, List.all_eq_true.2 hdigits.2, hlt⟩

-- A sign is no digit, so that a text is read in one way.
theorem not_isDigits_cons {c : Char} {ds : Text} (h : c.isDigit = false) : ¬ IsDigits (c :: ds) := by
  rintro ⟨-, hall⟩
  rw [hall c List.mem_cons_self] at h
  cases h

theorem map_readDigits?_eq_some_iff {bound : Nat} {ds : Text} {f : Nat → Int} {i : Int} :
    (readDigits? bound ds).map f = some i ↔
      IsDigits ds ∧ digitsValue ds < bound ∧ f (digitsValue ds) = i := by
  rw [Option.map_eq_some_iff]
  constructor
  · rintro ⟨n, hn, hi⟩
    obtain ⟨hdigits, rfl, hlt⟩ := readDigits?_eq_some_iff.1 hn
    exact ⟨hdigits, hlt, hi⟩
  · rintro ⟨hdigits, hlt, hi⟩
    exact ⟨_, readDigits?_eq_some_iff.2 ⟨hdigits, rfl, hlt⟩, hi⟩

theorem readInt?_eq_some_iff {bound : Nat} (hbound : 0 < bound) {t : Text} {i : Int} :
    readInt? bound t = some i ↔ Writes t i ∧ -(bound : Int) ≤ i ∧ i < bound := by
  unfold readInt?
  split
  · next ds =>
    rw [map_readDigits?_eq_some_iff, Int.ofNat_eq_natCast]
    constructor
    · rintro ⟨hdigits, hlt, rfl⟩
      exact ⟨.plus hdigits, by omega, by omega⟩
    · rintro ⟨hwrites, -, hlt⟩
      cases hwrites with
      | bare h => exact absurd h (not_isDigits_cons (by decide))
      | plus h => exact ⟨h, by omega, rfl⟩
  · next ds =>
    rw [map_readDigits?_eq_some_iff, Int.ofNat_eq_natCast]
    constructor
    · rintro ⟨hdigits, hlt, rfl⟩
      exact ⟨.minus hdigits, by omega, by omega⟩
    · rintro ⟨hwrites, hle, -⟩
      cases hwrites with
      | bare h => exact absurd h (not_isDigits_cons (by decide))
      | minus h => exact ⟨h, by omega, rfl⟩
  · next ds hplus hminus =>
    rw [map_readDigits?_eq_some_iff, Int.ofNat_eq_natCast]
    constructor
    · rintro ⟨hdigits, hlt, rfl⟩
      exact ⟨.bare hdigits, by omega, by omega⟩
    · rintro ⟨hwrites, -, hlt⟩
      cases hwrites with
      | bare h => exact ⟨h, by omega, rfl⟩
      | plus h => exact absurd rfl (hplus _)
      | minus h => exact absurd rfl (hminus _)

theorem isDigits_ofNat (n : Nat) : IsDigits (ofNat n) :=
  ⟨Nat.toDigits_ne_nil, fun _ hc => Nat.isDigit_of_mem_toDigits (by decide) (by decide) hc⟩

theorem digitsValue_ofNat (n : Nat) : digitsValue (ofNat n) = n :=
  Nat.ofDigitChars_toDigits (by decide) (by decide)

theorem writes_ofInt (i : Int) : Writes (ofInt i) i := by
  unfold ofInt
  by_cases hneg : i < 0
  · rw [if_pos hneg]
    have hwrites : Writes ('-' :: ofNat i.natAbs) (-digitsValue (ofNat i.natAbs)) :=
      .minus (isDigits_ofNat i.natAbs)
    rw [digitsValue_ofNat] at hwrites
    have hi : -(i.natAbs : Int) = i := by omega
    rwa [hi] at hwrites
  · rw [if_neg hneg]
    have hwrites : Writes (ofNat i.natAbs) (digitsValue (ofNat i.natAbs)) :=
      .bare (isDigits_ofNat i.natAbs)
    rw [digitsValue_ofNat] at hwrites
    have hi : (i.natAbs : Int) = i := by omega
    rwa [hi] at hwrites

theorem isDigit_or_minus_of_mem_ofInt {i : Int} {c : Char} (h : c ∈ ofInt i) :
    c.isDigit = true ∨ c = '-' := by
  have hdigits := (isDigits_ofNat i.natAbs).2 c
  unfold ofInt at h
  split at h
  · rw [List.mem_cons] at h
    rcases h with hminus | hmem
    · exact .inr hminus
    · exact .inl (hdigits hmem)
  · exact .inl (hdigits h)

end Numeral

theorem isBlank_eq_false_of_isDigit {c : Char} (h : c.isDigit = true) : isBlank c = false := by
  simp only [Char.isDigit, Bool.and_eq_true, decide_eq_true_eq, ge_iff_le, UInt32.le_iff_toNat_le] at h
  change 48 ≤ c.toNat ∧ c.toNat ≤ 57 at h
  simp only [isBlank, Bool.or_eq_false_iff, Bool.and_eq_false_iff, decide_eq_false_iff_not,
    beq_eq_false_iff_ne]
  omega

namespace Placeholder

-- A comma and an alignment of a thousand columns at most, or neither. The colon would
-- begin the format.
inductive WritesAlignment : Text → Option Int → Prop
  | absent : WritesAlignment [] none
  | present {a : Text} {i : Int} (hcolon : ':' ∉ a) (hwrites : Numeral.Writes (Text.trim a) i)
      (hlow : -1000 ≤ i) (hhigh : i ≤ 1000) : WritesAlignment (',' :: a) (some i)

-- A colon and any text as the format, or neither
inductive WritesFormat : Text → Option Text → Prop
  | absent : WritesFormat [] none
  | present (f : Text) : WritesFormat (':' :: f) (some f)

theorem readAlignment?_eq_some_iff {a : Text} {i : Int} :
    readAlignment? a = some i ↔ Numeral.Writes (Text.trim a) i ∧ -1000 ≤ i ∧ i ≤ 1000 := by
  have hbound : Numeral.widthBound = 2147483648 := by decide
  rw [readAlignment?, Option.filter_eq_some_iff, hbound, Numeral.readInt?_eq_some_iff (by decide),
    decide_eq_true_eq, maxAlignment]
  constructor
  · rintro ⟨⟨hwrites, -, -⟩, hmax⟩
    exact ⟨hwrites, by omega, by omega⟩
  · rintro ⟨hwrites, hlow, hhigh⟩
    exact ⟨⟨hwrites, by omega, by omega⟩, by omega⟩

theorem WritesAlignment.colon_not_mem {t : Text} {alignment : Option Int}
    (h : WritesAlignment t alignment) : ':' ∉ t := by
  cases h with
  | absent => exact List.not_mem_nil
  | present hcolon =>
      rw [List.mem_cons, not_or]
      exact ⟨by decide, hcolon⟩

-- The first colon parts the alignment from the format.
theorem takeWhile_append_of_colon {a f : Text} {format : Option Text} (ha : ':' ∉ a)
    (hf : WritesFormat f format) :
    (a ++ f).takeWhile (· ≠ ':') = a ∧ (a ++ f).dropWhile (· ≠ ':') = f := by
  have hall : ∀ c ∈ a, decide (c ≠ ':') = true := by
    intro c hc
    rw [decide_eq_true_eq]
    rintro rfl
    exact ha hc
  rw [List.takeWhile_append_of_pos hall, List.dropWhile_append_of_pos hall]
  cases hf with
  | absent => exact ⟨List.append_nil a, rfl⟩
  | present f => exact ⟨by simp, by simp⟩

theorem writesFormat_dropWhile (suffix : Text) :
    WritesFormat (suffix.dropWhile (· ≠ ':'))
      (match suffix.dropWhile (· ≠ ':') with | _ :: f => some f | [] => none) := by
  cases h : suffix.dropWhile (· ≠ ':') with
  | nil => exact .absent
  | cons c f =>
      -- what is dropped ends at a colon
      have hc : c = ':' := by
        have hhead := List.head?_dropWhile_not (fun c : Char => decide (c ≠ ':')) suffix
        rw [h] at hhead
        simpa using hhead
      subst hc
      exact .present f

theorem readSuffix?_eq_some_iff {suffix : Text} {alignment : Option Int} {format : Option Text} :
    readSuffix? suffix = some (alignment, format) ↔
      ∃ a f, suffix = a ++ f ∧ WritesAlignment a alignment ∧ WritesFormat f format := by
  constructor
  · intro h
    have hcolon : ':' ∉ suffix.takeWhile (· ≠ ':') := by
      intro hmem
      have hne := List.all_eq_true.1 (List.all_takeWhile (l := suffix) (p := (· ≠ ':'))) _ hmem
      simp at hne
    refine ⟨suffix.takeWhile (· ≠ ':'), suffix.dropWhile (· ≠ ':'),
      List.takeWhile_append_dropWhile.symm, ?_⟩
    have hformat := writesFormat_dropWhile suffix
    unfold readSuffix? at h
    generalize suffix.takeWhile (· ≠ ':') = front at h hcolon ⊢
    dsimp only at h
    split at h
    · simp only [Option.some.injEq, Prod.mk.injEq] at h
      obtain ⟨rfl, rfl⟩ := h
      exact ⟨.absent, hformat⟩
    · next a =>
      obtain ⟨i, hi, he⟩ := Option.map_eq_some_iff.1 h
      simp only [Prod.mk.injEq] at he
      obtain ⟨rfl, rfl⟩ := he
      obtain ⟨hwrites, hlow, hhigh⟩ := readAlignment?_eq_some_iff.1 hi
      exact ⟨.present (fun hmem => hcolon (List.mem_cons_of_mem _ hmem)) hwrites hlow hhigh, hformat⟩
    · cases h
  · rintro ⟨a, f, rfl, ha, hf⟩
    obtain ⟨htake, hdrop⟩ := takeWhile_append_of_colon ha.colon_not_mem hf
    unfold readSuffix?
    rw [htake, hdrop]
    cases ha with
    | absent =>
        cases hf with
        | absent => rfl
        | present f => rfl
    | present hcolon hwrites hlow hhigh =>
        simp only [readAlignment?_eq_some_iff.2 ⟨hwrites, hlow, hhigh⟩, Option.map_some]
        cases hf with
        | absent => rfl
        | present f => rfl

-- An alignment and a format that can stand between braces
structure Writable (alignment : Option Int) (format : Option Text) : Prop where
  bounded : ∀ a ∈ alignment, -1000 ≤ a ∧ a ≤ 1000
  single : ∀ f ∈ format, ∀ c ∈ f, c ≠ '{' ∧ c ≠ '}' ∧ c ≠ '\n'

-- Told along the format text, where an instance for all characters would try each of them.
theorem all_iff_writable {alignment : Option Int} {format : Option Text} :
    (alignment.all (fun a => -1000 ≤ a ∧ a ≤ 1000) = true ∧
        format.all (fun f => f.all fun c => c ≠ '{' ∧ c ≠ '}' ∧ c ≠ '\n') = true) ↔
      Writable alignment format := by
  simp only [Option.all_eq_true, List.all_eq_true, decide_eq_true_eq]
  exact ⟨fun h => ⟨h.1, h.2⟩, fun h => ⟨h.bounded, h.single⟩⟩

instance (alignment : Option Int) (format : Option Text) : Decidable (Writable alignment format) :=
  decidable_of_iff _ all_iff_writable

theorem writesAlignment_ofInt {a : Int} (hlow : -1000 ≤ a) (hhigh : a ≤ 1000) :
    WritesAlignment (',' :: Numeral.ofInt a) (some a) := by
  have hcolon : ':' ∉ Numeral.ofInt a := by
    intro hmem
    rcases Numeral.isDigit_or_minus_of_mem_ofInt hmem with hdigit | hminus
    · exact absurd hdigit (by decide)
    · exact absurd hminus (by decide)
  have htrim : Text.trim (Numeral.ofInt a) = Numeral.ofInt a := by
    apply Text.trim_eq_self_of_forall
    intro c hc
    rcases Numeral.isDigit_or_minus_of_mem_ofInt hc with hdigit | rfl
    · exact isBlank_eq_false_of_isDigit hdigit
    · rfl
  have hwrites := Numeral.writes_ofInt a
  rw [← htrim] at hwrites
  exact .present hcolon hwrites hlow hhigh

end Placeholder

-- An index, an alignment and a format as they stand between two braces
structure Hole.Written (h : Hole) : Prop where
  digits : Numeral.IsDigits h.digits
  index_eq : h.placeholder.index = Numeral.digitsValue h.digits
  index_lt : h.placeholder.index < Nat.pow 2 64
  single : ∀ c ∈ h.suffix, c ≠ '{' ∧ c ≠ '}' ∧ c ≠ '\n'
  suffix : ∃ a f, h.suffix = a ++ f ∧ Placeholder.WritesAlignment a h.placeholder.alignment ∧
    Placeholder.WritesFormat f h.placeholder.format

-- Any index that is small enough can stand in its place.
theorem Hole.Written.withIndex {h : Hole} (hwritten : h.Written) {index : Nat} (hlt : index < Nat.pow 2 64) :
    (h.withIndex index).Written where
  digits := Numeral.isDigits_ofNat index
  index_eq := (Numeral.digitsValue_ofNat index).symm
  index_lt := hlt
  single := hwritten.single
  suffix := hwritten.suffix

theorem Hole.Written.writable {h : Hole} (hwritten : h.Written) :
    Placeholder.Writable h.placeholder.alignment h.placeholder.format := by
  obtain ⟨digits, suffix, index, alignment, format⟩ := h
  obtain ⟨-, -, -, hsingle, a, f, rfl, ha, hf⟩ := hwritten
  constructor
  · intro i hi
    cases ha with
    | absent => simp at hi
    | present hcolon hwrites hlow hhigh =>
        obtain rfl := Option.some.inj hi
        exact ⟨hlow, hhigh⟩
  · intro other hother c hc
    cases hf with
    | absent => simp at hother
    | present f =>
        obtain rfl := Option.some.inj hother
        exact hsingle c (by simp [hc])

namespace Item

-- The items that format text is made of
inductive Written : Item → Prop
  | char {c : Char} (hopen : c ≠ '{') (hclose : c ≠ '}') : Written (.char c)
  | brace (b : Brace) : Written (.brace b)
  | hole {h : Hole} (hwritten : h.Written) : Written (.hole h)

theorem isDelimiter_eq_false_iff {c : Char} :
    isDelimiter c = false ↔ c ≠ '{' ∧ c ≠ '}' ∧ c ≠ '\n' := by
  simp only [isDelimiter, Bool.or_eq_false_iff, beq_eq_false_iff_ne, ne_eq, and_assoc]

theorem isDelimiter_of_isDigit {c : Char} (h : c.isDigit = true) : isDelimiter c = false := by
  rw [isDelimiter_eq_false_iff]
  refine ⟨?_, ?_, ?_⟩ <;> rintro rfl <;> exact absurd h (by decide)

end Item

namespace Hole

-- The suffix begins with a comma, with a colon or not at all.
theorem takeWhile_isDigit {ds a f : Text} {alignment : Option Int} {format : Option Text}
    (hdigits : Numeral.IsDigits ds) (ha : Placeholder.WritesAlignment a alignment)
    (hf : Placeholder.WritesFormat f format) :
    (ds ++ (a ++ f)).takeWhile Char.isDigit = ds ∧
      (ds ++ (a ++ f)).dropWhile Char.isDigit = a ++ f := by
  rw [List.takeWhile_append_of_pos hdigits.2, List.dropWhile_append_of_pos hdigits.2]
  cases ha with
  | absent =>
      cases hf with
      | absent => exact ⟨List.append_nil ds, rfl⟩
      | present f => exact ⟨List.append_nil ds, rfl⟩
  | present => exact ⟨List.append_nil ds, rfl⟩

-- What is read between braces is an index, an alignment and a format, and the other
-- way round.
theorem ofText?_eq_some_iff {inner : Text} (hsingle : ∀ c ∈ inner, Item.isDelimiter c = false)
    {h : Hole} : ofText? inner = some h ↔ h.inner = inner ∧ h.Written := by
  constructor
  · intro he
    have hinner := inner_of_ofText? he
    refine ⟨hinner, ?_⟩
    unfold ofText? at he
    dsimp only at he
    split at he
    · next index alignment format hindex hsuffix =>
      cases he
      obtain ⟨hdigits, rfl, hlt⟩ := Numeral.readDigits?_eq_some_iff.1 hindex
      refine ⟨hdigits, rfl, hlt, ?_, Placeholder.readSuffix?_eq_some_iff.1 hsuffix⟩
      intro c hc
      exact Item.isDelimiter_eq_false_iff.1 (hsingle c ((List.dropWhile_suffix _).subset hc))
    · cases he
  · rintro ⟨rfl, hwritten⟩
    obtain ⟨digits, suffix, index, alignment, format⟩ := h
    obtain ⟨hdigits, hindex, hlt, -, a, f, rfl, ha, hf⟩ := hwritten
    dsimp only at hdigits hindex hlt ha hf
    obtain ⟨htake, hdrop⟩ := takeWhile_isDigit hdigits ha hf
    have hread : Numeral.readDigits? Numeral.countBound digits = some index :=
      Numeral.readDigits?_eq_some_iff.2 ⟨hdigits, hindex, hlt⟩
    have hsuffix := Placeholder.readSuffix?_eq_some_iff.2 ⟨a, f, rfl, ha, hf⟩
    simp only [ofText?, inner, htake, hdrop, hread, hsuffix]

theorem Written.inner_eq_cons {h : Hole} (hwritten : h.Written) :
    ∃ c t, h.inner = c :: t ∧ c.isDigit = true := by
  obtain ⟨hne, hall⟩ := hwritten.digits
  obtain ⟨c, ds, hds⟩ := List.exists_cons_of_ne_nil hne
  refine ⟨c, ds ++ h.suffix, by rw [inner, hds, List.cons_append], hall c ?_⟩
  rw [hds]
  exact List.mem_cons_self

theorem Written.isDelimiter_of_mem_inner {h : Hole} (hwritten : h.Written) :
    ∀ c ∈ h.inner, Item.isDelimiter c = false := by
  intro c hc
  rcases List.mem_append.1 hc with hd | hs
  · exact Item.isDelimiter_of_isDigit (hwritten.digits.2 c hd)
  · exact Item.isDelimiter_eq_false_iff.2 (hwritten.single c hs)

end Hole

namespace Item

theorem closing?_eq_some_iff {t inner rest : Text} :
    closing? t = some (inner, rest) ↔
      t = inner ++ '}' :: rest ∧ ∀ c ∈ inner, isDelimiter c = false := by
  constructor
  · intro h
    refine ⟨eq_of_closing? h, ?_⟩
    simp only [closing?] at h
    split at h
    · obtain ⟨rfl, -⟩ := Prod.mk.inj (Option.some.inj h)
      intro c hc
      have hall := List.all_eq_true.1 (List.all_takeWhile (l := t) (p := (!isDelimiter ·))) c hc
      simpa using hall
    · cases h
  · rintro ⟨rfl, hinner⟩
    have hpos : ∀ c ∈ inner, (!isDelimiter c) = true := by
      intro c hc
      rw [hinner c hc]
      rfl
    rw [closing?, List.dropWhile_append_of_pos hpos, List.takeWhile_append_of_pos hpos]
    simp [isDelimiter]

-- The first item of a text is told from it: whatever the text goes on with, and whatever
-- items it could be made of.
theorem first_of_written {item : Item} (h : item.Written) (rest : Text) :
    ∃ c t, item.text ++ rest = c :: t ∧ first c t = .ok (item, rest) := by
  cases h with
  | @char c hopen hclose =>
      refine ⟨c, rest, rfl, ?_⟩
      unfold first
      rw [if_neg hopen, if_neg hclose]
  | brace b =>
      cases b with
      | opening => exact ⟨'{', '{' :: rest, rfl, rfl⟩
      | closing => exact ⟨'}', '}' :: rest, rfl, rfl⟩
  | @hole h hwritten =>
      refine ⟨'{', h.inner ++ '}' :: rest, by simp [text], ?_⟩
      have hclosing : closing? (h.inner ++ '}' :: rest) = some (h.inner, rest) :=
        closing?_eq_some_iff.2 ⟨rfl, hwritten.isDelimiter_of_mem_inner⟩
      have hread : Hole.ofText? h.inner = some h :=
        (Hole.ofText?_eq_some_iff hwritten.isDelimiter_of_mem_inner).2 ⟨rfl, hwritten⟩
      obtain ⟨c, t, hinner, hdigit⟩ := hwritten.inner_eq_cons
      unfold first
      rw [if_pos rfl]
      split
      · next r he =>
        -- a digit is no brace
        rw [hinner, List.cons_append] at he
        obtain rfl : c = '{' := (List.cons.inj he).1
        exact absurd hdigit (by decide)
      · simp only [hclosing, hread]

theorem written_of_first {c : Char} {t rest : Text} {item : Item}
    (h : first c t = .ok (item, rest)) : item.Written := by
  unfold first at h
  split at h
  · split at h
    · cases h
      exact .brace .opening
    · split at h
      · cases h
      · next inner r hclosing =>
        split at h
        · cases h
        · next hole hread =>
          cases h
          have hsingle := (closing?_eq_some_iff.1 hclosing).2
          exact .hole ((Hole.ofText?_eq_some_iff hsingle).1 hread).2
  · next hopen =>
    split at h
    · split at h
      · cases h
        exact .brace .closing
      · cases h
    · next hclose =>
      cases h
      exact .char hopen hclose

theorem written_of_scan {t : Text} {items : List Item} (h : scan t = .ok items) :
    ∀ item ∈ items, item.Written := by
  fun_induction scan t generalizing items with
  | case1 =>
      cases h
      simp
  | case2 c t e hfirst => cases h
  | case3 c t item rest hfirst ih =>
      cases hrest : scan rest with
      | error e =>
          rw [hrest] at h
          cases h
      | ok others =>
          rw [hrest] at h
          cases h
          intro other hmem
          rcases List.mem_cons.1 hmem with rfl | hmem
          · exact written_of_first hfirst
          · exact ih hrest other hmem

theorem scan_print {items : List Item} (h : ∀ item ∈ items, item.Written) :
    scan (print items) = .ok items := by
  induction items with
  | nil =>
      rw [print, List.flatMap_nil, scan]
  | cons item items ih =>
      have hrest := ih fun other hmem => h other (List.mem_cons_of_mem _ hmem)
      obtain ⟨c, t, htext, hfirst⟩ := first_of_written (h item List.mem_cons_self) (print items)
      rw [print_cons, htext, scan_cons hfirst, hrest]
      rfl

-- A text is scanned into items exactly when it is their text.
theorem scan_eq_ok_iff {t : Text} {items : List Item} :
    scan t = .ok items ↔ print items = t ∧ ∀ item ∈ items, item.Written := by
  constructor
  · exact fun h => ⟨print_of_scan h, written_of_scan h⟩
  · rintro ⟨rfl, h⟩
    exact scan_print h

end Item

end Narrative
