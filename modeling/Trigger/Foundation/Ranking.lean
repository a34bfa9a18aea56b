import Mathlib.Data.List.Perm.Subperm
import Mathlib.Order.Lattice
import Mathlib.Tactic.Common

/-! Positions in a strictly increasing list: renumbering its elements by their
positions keeps their order, a position counts the smaller elements, and the
elements determine the list.
-/

set_option autoImplicit false

namespace Trigger.Foundation

variable {α : Type} [LinearOrder α] {sorted : List α}

theorem idxOf_eq_countP (increasing : sorted.Pairwise (· < ·)) {a : α} (member : a ∈ sorted) :
    sorted.idxOf a = sorted.countP (· < a) := by
  induction sorted with
  | nil => cases member
  | cons head rest ih =>
    obtain ⟨above, restIncreasing⟩ := List.pairwise_cons.mp increasing
    by_cases same : head = a
    · subst same
      have none : rest.countP (· < head) = 0 :=
        List.countP_eq_zero.mpr fun b present => by simpa using (above b present).le
      simp [none]
    · have present : a ∈ rest := (List.mem_cons.mp member).resolve_left (Ne.symm same)
      rw [List.idxOf_cons_ne _ same, ih restIncreasing present,
        List.countP_cons_of_pos (by simpa using above a present)]

theorem idxOf_lt_idxOf_iff (increasing : sorted.Pairwise (· < ·)) {a b : α} (first : a ∈ sorted)
    (second : b ∈ sorted) : sorted.idxOf a < sorted.idxOf b ↔ a < b := by
  have order {x y : α} (left : x ∈ sorted) (right : y ∈ sorted)
      (before : sorted.idxOf x < sorted.idxOf y) : x < y := by
    have ordered := List.pairwise_iff_getElem.mp increasing _ _
      (List.idxOf_lt_length_of_mem left) (List.idxOf_lt_length_of_mem right) before
    simpa only [List.getElem_idxOf] using ordered
  refine ⟨order first second, fun smaller => ?_⟩
  rcases Nat.lt_trichotomy (sorted.idxOf a) (sorted.idxOf b) with before | same | after
  · exact before
  · exact absurd ((List.idxOf_inj first).mp same) smaller.ne
  · exact absurd (order second first after) smaller.asymm

theorem eq_of_increasing_of_subset {other : List α} (increasing : sorted.Pairwise (· < ·))
    (otherIncreasing : other.Pairwise (· < ·)) (subset : sorted ⊆ other)
    (length : other.length ≤ sorted.length) : sorted = other := by
  have nodup : sorted.Nodup := increasing.imp fun less => less.ne
  have same := (List.subperm_of_subset nodup subset).perm_of_length_le length
  exact same.eq_of_pairwise (fun _ _ _ _ less greater => absurd less greater.asymm)
    increasing otherIncreasing

end Trigger.Foundation
