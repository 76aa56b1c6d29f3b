import Mathlib.Algebra.GroupWithZero.Nat
import Mathlib.Algebra.Order.BigOperators.Group.List
import Mathlib.Algebra.Order.Group.Nat
import Mathlib.Order.Lattice.Nat
import Narrative.Proofs.Reader.Stack

namespace Narrative

variable {α : Type} {tree : Tree α}

-- The scope that is called, when there is one
def NodeKind.destination? : NodeKind α → Option NodeId
  | goTo _ destination => destination
  | _ => none

theorem NodeKind.exists_goTo_of_destination? {kind : NodeKind α} {destination : NodeId}
    (h : kind.destination? = some destination) : ∃ target, kind = .goTo target (some destination) := by
  cases kind with
  | goTo target written =>
      obtain rfl : written = some destination := h
      exact ⟨target, rfl⟩
  | _ => cases h

namespace Tree

-- A node, and all nodes that are below it
def Within (tree : Tree α) : NodeId → NodeId → Prop :=
  Relation.ReflTransGen fun id child => child ∈ tree.children id

-- Go-tos lead down: whatever is called from below a scope has a smaller rank than it.
def Ranked (tree : Tree α) (rank : NodeId → Nat) : Prop :=
  ∀ {scope id destination : NodeId} {goTo : Node α} {target : Text}, tree.isScope scope = true →
    tree.Within scope id → tree.get? id = some goTo →
    goTo.kind = .goTo target (some destination) → rank destination < rank scope

theorem Linked.mem_of_get? (h : tree.Linked) {id : NodeId} {node : Node α}
    (hget : tree.get? id = some node) : node.id = id ∧ node ∈ tree.nodes.toList :=
  ⟨h.id_eq hget, Array.mem_toList_iff.2 (Array.mem_of_getElem? hget)⟩

theorem exists_of_mem_children {id child : NodeId} (h : child ∈ tree.children id) :
    ∃ node, tree.get? id = some node ∧ child ∈ node.children := by
  unfold children at h
  cases hget : tree.get? id with
  | none => simp [hget] at h
  | some node => exact ⟨node, rfl, by simpa [hget] using h⟩

-- It is enough that every node says which scope it is in.
theorem Ranked.of_owners {rank : NodeId → Nat} (hlinked : tree.Linked) (owner : NodeId → NodeId)
    (hscope : ∀ node ∈ tree.nodes.toList, node.kind.isScope = true → owner node.id = node.id)
    (hchild : ∀ node ∈ tree.nodes.toList, ∀ child ∈ node.children, owner child = owner node.id)
    (hgoTo : ∀ node ∈ tree.nodes.toList, ∀ destination ∈ node.kind.destination?,
      rank destination < rank (owner node.id)) : tree.Ranked rank := by
  intro scope id destination node target hisScope hwithin hnode hkind
  obtain ⟨other, hother⟩ : ∃ other, tree.get? scope = some other :=
    exists_get?_of_isScope hisScope
  have howner : owner id = scope := by
    clear hnode
    induction hwithin with
    | refl =>
        obtain ⟨hid, hmem⟩ := hlinked.mem_of_get? hother
        have hself := hscope other hmem (by rwa [isScope, hother] at hisScope)
        rwa [hid] at hself
    | tail hwithin hstep ih =>
        obtain ⟨parent, hparent, hstep⟩ := exists_of_mem_children hstep
        obtain ⟨hid, hmem⟩ := hlinked.mem_of_get? hparent
        rw [hchild parent hmem _ hstep, hid, ih]
  obtain ⟨hid, hmem⟩ := hlinked.mem_of_get? hnode
  have hlt := hgoTo node hmem destination (by rw [hkind]; rfl)
  rwa [hid, howner] at hlt

-- Where a node leads into: a go-to into the scope that it calls, any other node into its
-- own children
def entrance (tree : Tree α) (id : NodeId) : NodeId :=
  ((tree.get? id).bind (·.kind.destination?)).getD id

theorem entrance_eq_self {id : NodeId} {node : Node α} (hget : tree.get? id = some node)
    (hkind : node.kind.destination? = none) : tree.entrance id = id := by
  rw [entrance, hget, Option.bind_some, hkind, Option.getD_none]

theorem entrance_goTo {id destination : NodeId} {node : Node α} {target : Text}
    (hget : tree.get? id = some node) (hkind : node.kind = .goTo target (some destination)) :
    tree.entrance id = destination := by
  rw [entrance, hget, Option.bind_some, hkind, NodeKind.destination?, Option.getD_some]

-- Children lead further down.
def Descends (tree : Tree α) (level : NodeId → Nat) : Prop :=
  ∀ id, ∀ child ∈ tree.children id, level (tree.entrance child) < level id

-- A price for each node that pays for a look past its last child, and for each of the
-- children and whatever that one leads into
def Covers (tree : Tree α) (price : NodeId → Nat) : Prop :=
  ∀ id, 1 + ((tree.children id).map fun child => 1 + price (tree.entrance child)).sum ≤ price id

-- The price when nothing is deeper than so many levels
def priceTo (tree : Tree α) : Nat → NodeId → Nat
  | 0, _ => 1
  | depth + 1, id =>
    1 + ((tree.children id).map fun child => 1 + priceTo tree depth (tree.entrance child)).sum

theorem priceTo_mono {depth more : Nat} (h : depth ≤ more) (id : NodeId) :
    tree.priceTo depth id ≤ tree.priceTo more id := by
  induction depth generalizing more id with
  | zero => cases more <;> simp [priceTo]
  | succ depth ih =>
      obtain ⟨more, rfl⟩ : ∃ k, more = k + 1 := ⟨more - 1, by omega⟩
      have hle : depth ≤ more := by omega
      simp only [priceTo, Nat.add_le_add_iff_left]
      exact List.sum_le_sum fun child _ => Nat.add_le_add_left (ih hle _) 1

theorem Descends.covers {level : NodeId → Nat} (h : tree.Descends level) :
    tree.Covers fun id => tree.priceTo (level id) id := by
  intro id
  dsimp only
  cases hlevel : level id with
  | zero =>
      -- nothing is below the lowest level
      have hnil : tree.children id = [] := by
        rw [List.eq_nil_iff_forall_not_mem]
        intro child hchild
        have hlt := h id child hchild
        omega
      simp [hnil, priceTo]
  | succ depth =>
      simp only [priceTo, Nat.add_le_add_iff_left]
      apply List.sum_le_sum
      intro child hchild
      have hlt := h id child hchild
      exact Nat.add_le_add_left (priceTo_mono (by omega) _) 1

section Levels

variable {isGate : α → Bool} {rank : NodeId → Nat}

theorem WellFormed.exists_scope (h : tree.WellFormed isGate) {id : Nat} (hid : id < tree.nodes.size) :
    ∃ scope, tree.isScope scope = true ∧ tree.Within scope id := by
  induction id using Nat.strongRecOn with
  | ind id ih =>
      cases hscope : tree.isScope id with
      | true => exact ⟨id, hscope, .refl⟩
      | false =>
          -- any other node is the child of one in front of it
          have hcount := h.count_children id hid
          rw [hscope, if_neg Bool.false_ne_true] at hcount
          have hmem : id ∈ tree.nodes.toList.flatMap (·.children) :=
            List.count_pos_iff.1 (by omega)
          obtain ⟨parent, hparent, hchild⟩ := List.mem_flatMap.1 hmem
          obtain ⟨p, hp⟩ : ∃ p, tree.get? p = some parent :=
            Array.mem_iff_getElem?.1 (Array.mem_toList_iff.1 hparent)
          obtain ⟨hlt, -⟩ := h.child_between hp hchild
          obtain ⟨scope, hisScope, hwithin⟩ := ih p hlt (by omega)
          refine ⟨scope, hisScope, hwithin.tail ?_⟩
          rw [children, hp]
          exact hchild

-- The ranks of the scopes that a node is below
def scopeRanks (tree : Tree α) (rank : NodeId → Nat) (id : NodeId) : Set Nat :=
  {n | ∃ scope, tree.isScope scope = true ∧ tree.Within scope id ∧ rank scope = n}

theorem sInf_scopeRanks_le {scope id : NodeId} (hscope : tree.isScope scope = true)
    (hwithin : tree.Within scope id) : sInf (tree.scopeRanks rank id) ≤ rank scope :=
  Nat.sInf_le ⟨scope, hscope, hwithin, rfl⟩

theorem WellFormed.sInf_mem_scopeRanks (h : tree.WellFormed isGate) (rank : NodeId → Nat) {id : Nat}
    (hid : id < tree.nodes.size) : sInf (tree.scopeRanks rank id) ∈ tree.scopeRanks rank id := by
  obtain ⟨scope, hscope, hwithin⟩ := h.exists_scope hid
  exact Nat.sInf_mem ⟨rank scope, scope, hscope, hwithin, rfl⟩

-- Levels count ranks first, and then the nodes up to the end of the text.
noncomputable def levelOf (tree : Tree α) (rank : NodeId → Nat) (id : NodeId) : Nat :=
  sInf (tree.scopeRanks rank id) * (tree.nodes.size + 1) + (tree.nodes.size - id)

theorem Ranked.descends (h : tree.Ranked rank) (hwell : tree.WellFormed isGate)
    (hlinked : tree.Linked) : tree.Descends (tree.levelOf rank) := by
  intro id child hchild
  obtain ⟨node, hnode, hmem⟩ := exists_of_mem_children hchild
  obtain ⟨hlt, hsize⟩ := hwell.child_between hnode hmem
  obtain ⟨scope, hscope, hwithin, hrank⟩ := hwell.sInf_mem_scopeRanks rank (hlt.trans hsize)
  have hbelow : tree.Within scope child := hwithin.tail hchild
  obtain ⟨other, hother⟩ : ∃ other, tree.get? child = some other :=
    ⟨_, Array.getElem?_eq_getElem hsize⟩
  unfold levelOf
  rw [← hrank]
  cases hdestination : other.kind.destination? with
  | none =>
      -- a child stays in its scope, and stands further back
      have hle : sInf (tree.scopeRanks rank child) ≤ rank scope := sInf_scopeRanks_le hscope hbelow
      have hmul := Nat.mul_le_mul_right (tree.nodes.size + 1) hle
      rw [entrance_eq_self hother hdestination]
      omega
  | some destination =>
      obtain ⟨target, hkind⟩ := NodeKind.exists_goTo_of_destination? hdestination
      have hdrop : rank destination < rank scope := h hscope hbelow hother hkind
      have hcalled := hlinked.isScope_destination hother hkind
      have hle : sInf (tree.scopeRanks rank destination) ≤ rank destination :=
        sInf_scopeRanks_le hcalled .refl
      have hmul := Nat.mul_le_mul_right (tree.nodes.size + 1) (Nat.succ_le_of_lt (hle.trans_lt hdrop))
      rw [Nat.succ_mul] at hmul
      rw [entrance_goTo hother hkind]
      omega

end Levels

end Tree

end Narrative
