import Trigger.Foundation.Memory

/-! Allocated cells of an array.

A cell holds nothing until it is written. Only a cell that was allocated can be
stored to, and a reallocation keeps the cells that both sizes have. What an array
has been filled with is the list at its start.
-/

set_option autoImplicit false

namespace Trigger.Foundation

abbrev Cells (A : Type) := List (Option A)

namespace Cells

variable {A : Type}

def unwritten (size : Nat) : Cells A := List.replicate size none

def store (cells : Cells A) (index : Nat) (value : A) : Except Fault (Cells A) :=
  if index < cells.length then .ok (cells.set index (some value)) else .error .outOfBounds

def load (cells : Cells A) (index : Nat) : Except Fault A :=
  match cells[index]? with
  | some (some value) => .ok value
  | some none => .error .indeterminate
  | none => .error .outOfBounds

def storeAll (cells : Cells A) (index : Nat) : List A → Except Fault (Cells A)
  | [] => .ok cells
  | value :: rest => do (← cells.store index value).storeAll (index + 1) rest

def resize (cells : Cells A) (size : Nat) : Cells A := cells.take size ++ unwritten (size - cells.length)

def Hold (cells : Cells A) (values : List A) : Prop := values.map some <+: cells

@[simp] theorem length_unwritten (size : Nat) : (unwritten size : Cells A).length = size := List.length_replicate

@[simp] theorem length_resize (cells : Cells A) (size : Nat) : (cells.resize size).length = size := by
  simp only [resize, List.length_append, List.length_take, length_unwritten]
  omega

theorem hold_nil (cells : Cells A) : cells.Hold [] := List.nil_prefix

variable {cells : Cells A} {values : List A}

theorem Hold.store (hold : cells.Hold values) (room : values.length < cells.length) (value : A) :
    Hold (cells.set values.length (some value)) (values ++ [value]) := by
  obtain ⟨behind, rfl⟩ := hold
  rw [List.length_append, List.length_map] at room
  obtain ⟨cell, rest, rfl⟩ := List.exists_cons_of_ne_nil (List.ne_nil_of_length_pos (by omega : 0 < behind.length))
  refine ⟨rest, ?_⟩
  rw [List.set_append_right _ _ (by simp), List.length_map, Nat.sub_self, List.set_cons_zero, List.map_append,
    List.append_assoc]
  rfl

theorem Hold.storeAll (hold : cells.Hold values) {more : List A} (room : values.length + more.length ≤ cells.length) :
    ∃ written, cells.storeAll values.length more = .ok written ∧ written.Hold (values ++ more) ∧
      written.length = cells.length := by
  induction more generalizing cells values with
  | nil => exact ⟨cells, rfl, by rwa [List.append_nil], rfl⟩
  | cons value more ih =>
    rw [List.length_cons] at room
    have stored := hold.store (by omega) value
    obtain ⟨written, done, holds, same⟩ := ih stored (by
      rw [List.length_append, List.length_singleton, List.length_set]
      omega)
    rw [List.length_append, List.length_singleton] at done
    refine ⟨written, ?_, by rwa [List.append_assoc] at holds, by rw [same, List.length_set]⟩
    rw [Cells.storeAll, Cells.store, if_pos (by omega)]
    exact done

theorem Hold.front {more : List A} (hold : cells.Hold (values ++ more)) : cells.Hold values :=
  (List.prefix_append (values.map some) (more.map some)).trans (by rwa [Hold, List.map_append] at hold)

theorem Hold.behind {more : List A} (hold : cells.Hold (values ++ more)) : Cells.Hold (cells.drop values.length) more := by
  obtain ⟨rest, rfl⟩ := hold
  refine ⟨rest, ?_⟩
  rw [List.map_append, List.append_assoc, List.drop_left' (List.length_map ..)]

theorem Hold.resize (hold : cells.Hold values) {size : Nat} (enough : values.length ≤ size) :
    (cells.resize size).Hold values := by
  obtain ⟨behind, rfl⟩ := hold
  have whole : (values.map some).take size = values.map some := List.take_of_length_le (by simpa using enough)
  refine ⟨behind.take (size - values.length) ++ unwritten (size - (values.map some ++ behind).length), ?_⟩
  rw [Cells.resize, List.take_append, whole, List.length_map, List.append_assoc]

theorem Hold.resize_length (hold : cells.Hold values) : cells.resize values.length = values.map some := by
  obtain ⟨behind, rfl⟩ := hold
  rw [Cells.resize, List.take_left' (List.length_map ..), List.length_append, List.length_map, Nat.sub_eq_zero_of_le (by omega)]
  exact List.append_nil _

theorem Hold.modify (hold : cells.Hold values) (index : Nat) (change : A → A) :
    Hold (List.modify cells index (Option.map change)) (values.modify index change) := by
  have commutes : (values.modify index change).map some = (values.map some).modify index (Option.map change) := by
    clear hold
    induction values generalizing index with
    | nil => simp
    | cons value rest ih =>
      cases index with
      | zero => rfl
      | succ index => simpa using ih index
  obtain ⟨behind, rfl⟩ := hold
  rw [Hold, List.prefix_iff_eq_take, List.length_map, List.length_modify, List.take_modify, commutes,
    List.take_left' (List.length_map ..)]

theorem Hold.getElem? (hold : cells.Hold values) {index : Nat} (inside : index < values.length) :
    cells[index]? = some values[index]? := by
  obtain ⟨behind, rfl⟩ := hold
  rw [List.getElem?_append_left (by simpa using inside), List.getElem?_map, List.getElem?_eq_getElem inside]
  rfl

theorem Hold.load (hold : cells.Hold values) {index : Nat} {value : A} (found : values[index]? = some value) :
    cells.load index = .ok value := by
  rw [Cells.load, hold.getElem? (List.getElem?_eq_some_iff.mp found).1, found]

end Cells

end Trigger.Foundation
