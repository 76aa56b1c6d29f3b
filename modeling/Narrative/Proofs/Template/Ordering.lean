import Mathlib.Data.List.Induction
import Mathlib.Data.List.Nodup

namespace Narrative

variable {β γ : Type} [DecidableEq β] [DecidableEq γ]

-- The members of a row, each once, in the order in which they first occur in it
structure OrderedByFirst (row order : List β) : Prop where
  mem_iff : ∀ x, x ∈ order ↔ x ∈ row
  sorted : order.Pairwise fun x y => row.idxOf x < row.idxOf y

theorem OrderedByFirst.nodup {row order : List β} (h : OrderedByFirst row order) : order.Nodup := by
  apply h.sorted.imp
  rintro x y hlt rfl
  exact Nat.lt_irrefl _ hlt

-- A row that goes on with what it has already has nothing new.
theorem eraseDups_concat (row : List β) (x : β) :
    (row ++ [x]).eraseDups = if x ∈ row then row.eraseDups else row.eraseDups ++ [x] := by
  rw [List.eraseDups_append]
  by_cases hmem : x ∈ row <;> simp [List.removeAll, hmem, List.eraseDups_cons]

theorem orderedByFirst_eraseDups (row : List β) : OrderedByFirst row row.eraseDups where
  mem_iff := fun x => List.mem_eraseDups
  sorted := by
    induction row using List.reverseRecOn with
    | nil => simp
    | append_singleton row last ih =>
        have hkept : ∀ x ∈ row.eraseDups, (row ++ [last]).idxOf x = row.idxOf x := by
          intro x hx
          exact List.idxOf_append_of_mem (List.mem_eraseDups.1 hx)
        have hfront : row.eraseDups.Pairwise fun x y =>
            (row ++ [last]).idxOf x < (row ++ [last]).idxOf y := by
          apply ih.imp_of_mem
          intro x y hx hy hlt
          rwa [hkept x hx, hkept y hy]
        rw [eraseDups_concat]
        split
        · exact hfront
        · next hnew =>
          rw [List.pairwise_append]
          refine ⟨hfront, List.pairwise_singleton _ _, ?_⟩
          intro x hx y hy
          obtain rfl := List.mem_singleton.1 hy
          rw [hkept x hx, List.idxOf_append_of_notMem hnew]
          have hlt := List.idxOf_lt_length_of_mem (List.mem_eraseDups.1 hx)
          omega

-- Names that tell the members of a row apart leave their order as it is.
theorem eraseDups_map {f : β → γ} {row : List β}
    (h : ∀ x ∈ row, ∀ y ∈ row, f x = f y → x = y) : (row.map f).eraseDups = row.eraseDups.map f := by
  induction row using List.reverseRecOn with
  | nil => rfl
  | append_singleton row last ih =>
      have hfront := ih fun x hx y hy => h x (List.mem_append_left _ hx) y (List.mem_append_left _ hy)
      have hmem : f last ∈ row.map f ↔ last ∈ row := by
        refine ⟨?_, List.mem_map_of_mem⟩
        intro hlast
        obtain ⟨x, hx, he⟩ := List.mem_map.1 hlast
        rwa [← h x (List.mem_append_left _ hx) last (by simp) he]
      rw [List.map_append, List.map_singleton, eraseDups_concat, eraseDups_concat, hfront]
      by_cases hlast : last ∈ row
      · rw [if_pos (hmem.2 hlast), if_pos hlast]
      · rw [if_neg (mt hmem.1 hlast), if_neg hlast, List.map_append, List.map_singleton]

theorem map_idxOf_self {order : List β} (h : order.Nodup) :
    order.map order.idxOf = List.range order.length := by
  apply List.ext_getElem (by simp)
  intro n hn hn'
  rw [List.getElem_map, List.getElem_range, h.idxOf_getElem]

-- A row whose members are counted in their order counts up.
theorem eraseDups_map_idxOf (row : List β) :
    (row.map row.eraseDups.idxOf).eraseDups = List.range row.eraseDups.length := by
  have hinjective : ∀ x ∈ row, ∀ y ∈ row,
      row.eraseDups.idxOf x = row.eraseDups.idxOf y → x = y := by
    intro x hx y _ he
    exact (List.idxOf_inj (List.mem_eraseDups.2 hx)).1 he
  rw [eraseDups_map hinjective, map_idxOf_self (orderedByFirst_eraseDups row).nodup]

end Narrative
