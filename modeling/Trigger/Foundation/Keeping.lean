import Trigger.Foundation.Heap
import Trigger.Foundation.Memory

/-! Memory that is requested and released, and what is left of it.

Requests are answered from a list: each may be refused. Since some point in time a heap
keeps exactly the blocks that were granted after it and not released yet, each at its
address, and the blocks from before are as they were.
-/

set_option autoImplicit false

namespace Trigger.Foundation

structure Memory (Block : Type) where
  heap : Heap Block
  answers : List Bool

namespace Memory

variable {Block : Type}

/-- `malloc`, and what the block is for; requests beyond the answers are granted. -/
def malloc (memory : Memory Block) (block : Block) : Option Nat × Memory Block :=
  if memory.answers.headD true then
    (some memory.heap.fresh, ⟨memory.heap.create block, memory.answers.tail⟩)
  else (none, ⟨memory.heap, memory.answers.tail⟩)

/-- `free`; of a null pointer it does nothing. -/
def free (memory : Memory Block) : Option Nat → Except Fault (Memory Block)
  | none => .ok memory
  | some address =>
    if memory.heap.Live address then .ok { memory with heap := memory.heap.put address none }
    else .error .outOfBounds

def freeAll (memory : Memory Block) (addresses : List Nat) : Except Fault (Memory Block) :=
  addresses.foldlM (fun memory address => memory.free (some address)) memory

/-- The first of these requests that is refused. -/
def refused : List Bool → List Block → Option Block
  | _, [] => none
  | answers, block :: rest => if answers.headD true then refused answers.tail rest else some block

theorem malloc_of_granted {memory : Memory Block} (granted : memory.answers.headD true = true) (block : Block) :
    memory.malloc block = (some memory.heap.fresh, ⟨memory.heap.create block, memory.answers.tail⟩) :=
  if_pos granted

theorem malloc_of_refused {memory : Memory Block} (refused : ¬ memory.answers.headD true = true) (block : Block) :
    memory.malloc block = (none, ⟨memory.heap, memory.answers.tail⟩) :=
  if_neg refused

theorem refused_of_granted {answers : List Bool} (granted : answers.headD true = true) (block : Block)
    (rest : List Block) : refused answers (block :: rest) = refused answers.tail rest :=
  if_pos granted

theorem refused_of_refused {answers : List Bool} (denied : ¬ answers.headD true = true) (block : Block)
    (rest : List Block) : refused answers (block :: rest) = some block :=
  if_neg denied

end Memory

/-- What a heap has beside an earlier one: the blocks in the list, at their addresses. -/
structure Keeps {Block : Type} (before after : Heap Block) (kept : List (Nat × Block)) : Prop where
  grown : before.fresh ≤ after.fresh
  old : ∀ address < before.fresh, after.load address = before.load address
  new : ∀ address ≥ before.fresh, ∀ block, after.load address = some block ↔ (address, block) ∈ kept
  distinct : (kept.map Prod.fst).Nodup
  later : ∀ entry ∈ kept, before.fresh ≤ entry.1

namespace Keeps

variable {Block : Type} {before after : Heap Block} {kept front back : List (Nat × Block)} {address : Nat} {block : Block}

theorem load_beyond {heap : Heap Block} (beyond : heap.fresh ≤ address) : heap.load address = none := by
  rw [Heap.load, List.getElem?_eq_none beyond]
  rfl

theorem refl (heap : Heap Block) : Keeps heap heap [] where
  grown := Nat.le_refl _
  old _ _ := rfl
  new address beyond block := by simp [load_beyond beyond]
  distinct := List.nodup_nil
  later _ member := absurd member List.not_mem_nil

theorem create (keeps : Keeps before after kept) (block : Block) :
    Keeps before (after.create block) ((after.fresh, block) :: kept) := by
  have below : ∀ entry ∈ kept, entry.1 < after.fresh := by
    intro entry member
    have loaded := (keeps.new entry.1 (keeps.later entry member) entry.2).mpr member
    exact (Heap.live_of_load loaded).lt_fresh
  refine ⟨?_, fun address earlier => ?_, fun address beyond other => ?_, ?_, ?_⟩
  · exact Nat.le_trans keeps.grown (by simp [Heap.fresh, Heap.create])
  · rw [Heap.load_create, if_neg (Nat.ne_of_lt (Nat.lt_of_lt_of_le earlier keeps.grown)), keeps.old address earlier]
  · rw [Heap.load_create, List.mem_cons]
    split
    · rename_i here
      subst here
      have absent : (after.fresh, other) ∉ kept := fun member => Nat.lt_irrefl _ (below _ member)
      simp [absent, eq_comm]
    · rename_i elsewhere
      rw [keeps.new address beyond other]
      simp [elsewhere]
  · refine List.nodup_cons.mpr ⟨fun member => ?_, keeps.distinct⟩
    obtain ⟨entry, inside, same⟩ := List.mem_map.mp member
    exact Nat.ne_of_lt (below entry inside) same
  · exact List.forall_mem_cons.mpr ⟨keeps.grown, keeps.later⟩

theorem live (keeps : Keeps before after (front ++ (address, block) :: back)) : after.Live address := by
  have member : (address, block) ∈ front ++ (address, block) :: back := List.mem_append_right _ (List.mem_cons_self ..)
  exact Heap.live_of_load ((keeps.new address (keeps.later _ member) block).mpr member)

theorem put (keeps : Keeps before after (front ++ (address, block) :: back)) :
    Keeps before (after.put address none) (front ++ back) := by
  have member : (address, block) ∈ front ++ (address, block) :: back := List.mem_append_right _ (List.mem_cons_self ..)
  have sublist : (front ++ back).Sublist (front ++ (address, block) :: back) :=
    (List.sublist_cons_self _ _).append_left front
  -- No other block has the address.
  have gone : ∀ other, (address, other) ∉ front ++ back := by
    intro other inside
    have distinct := keeps.distinct
    rw [List.map_append, List.map_cons, List.nodup_middle, List.nodup_cons, ← List.map_append] at distinct
    exact distinct.1 (List.mem_map.mpr ⟨_, inside, rfl⟩)
  refine ⟨?_, fun asked earlier => ?_, fun asked beyond other => ?_, ?_, ?_⟩
  · rw [Heap.fresh_put]
    exact keeps.grown
  · rw [Heap.load_put keeps.live, if_neg (Nat.ne_of_lt (Nat.lt_of_lt_of_le earlier (keeps.later _ member))),
      keeps.old asked earlier]
  · rw [Heap.load_put keeps.live]
    split
    · rename_i here
      subst here
      simp [gone]
    · rename_i elsewhere
      rw [keeps.new asked beyond other]
      simp [elsewhere]
  · exact keeps.distinct.sublist (sublist.map _)
  · exact fun entry inside => keeps.later entry (sublist.subset inside)

theorem free {memory : Memory Block} (keeps : Keeps before memory.heap (front ++ (address, block) :: back)) :
    ∃ next, memory.free (some address) = .ok next ∧ next.answers = memory.answers ∧
      Keeps before next.heap (front ++ back) :=
  ⟨{ memory with heap := memory.heap.put address none }, if_pos keeps.live, rfl, keeps.put⟩

theorem freeAll {memory : Memory Block} {addresses : List Nat}
    (keeps : Keeps before memory.heap (front ++ (addresses.map fun address => (address, block)) ++ back)) :
    ∃ next, memory.freeAll addresses = .ok next ∧ next.answers = memory.answers ∧
      Keeps before next.heap (front ++ back) := by
  induction addresses generalizing memory with
  | nil => exact ⟨memory, rfl, rfl, by simpa using keeps⟩
  | cons address rest ih =>
    rw [List.map_cons, List.append_assoc, List.cons_append] at keeps
    obtain ⟨next, freed, answers, held⟩ := keeps.free
    rw [← List.append_assoc] at held
    obtain ⟨last, others, unasked, remains⟩ := ih held
    refine ⟨last, ?_, unasked.trans answers, remains⟩
    rw [Memory.freeAll, List.foldlM_cons, freed]
    exact others

theorem perm {other : List (Nat × Block)} (keeps : Keeps before after kept) (same : kept.Perm other) :
    Keeps before after other :=
  ⟨keeps.grown, keeps.old, fun address beyond block => (keeps.new address beyond block).trans same.mem_iff,
    (same.map Prod.fst).nodup_iff.mp keeps.distinct, fun entry member => keeps.later entry (same.mem_iff.mpr member)⟩

end Keeps

end Trigger.Foundation
