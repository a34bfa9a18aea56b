import Mathlib.Data.List.Basic
import Mathlib.Data.List.Nodup
import Mathlib.Tactic.Common

/-! Blocks of memory at their addresses.

An address is the position of a block in the order of allocation, so a new block is
never at an address in use before. A block that was freed leaves its address empty.
-/

set_option autoImplicit false

namespace Trigger.Foundation

structure Heap (Block : Type) where
  blocks : List (Option Block)

namespace Heap

variable {Block : Type}

def empty : Heap Block := ⟨[]⟩

def load (heap : Heap Block) (address : Nat) : Option Block := heap.blocks[address]?.join

/-- The address that the next block gets. -/
def fresh (heap : Heap Block) : Nat := heap.blocks.length

def create (heap : Heap Block) (block : Block) : Heap Block := ⟨heap.blocks ++ [some block]⟩

/-- What a live block becomes: another block, or `none` when it is freed. -/
def put (heap : Heap Block) (address : Nat) (block : Option Block) : Heap Block := ⟨heap.blocks.set address block⟩

def Live (heap : Heap Block) (address : Nat) : Prop := (heap.load address).isSome

instance (heap : Heap Block) (address : Nat) : Decidable (heap.Live address) := inferInstanceAs (Decidable (_ = true))

def Agrees (heap other : Heap Block) (addresses : List Nat) : Prop :=
  ∀ address ∈ addresses, heap.load address = other.load address

variable {heap other : Heap Block} {address : Nat} {block : Block}

theorem live_iff : heap.Live address ↔ ∃ block, heap.load address = some block := Option.isSome_iff_exists

theorem live_of_load (loaded : heap.load address = some block) : heap.Live address := live_iff.mpr ⟨block, loaded⟩

theorem Live.lt_fresh (live : heap.Live address) : address < heap.fresh := by
  obtain ⟨block, loaded⟩ := live_iff.mp live
  by_contra outside
  rw [load, List.getElem?_eq_none (Nat.le_of_not_lt outside)] at loaded
  cases loaded

theorem Live.ne_fresh (live : heap.Live address) : address ≠ heap.fresh := Nat.ne_of_lt live.lt_fresh

@[simp] theorem not_live_empty : ¬ (empty : Heap Block).Live address := by simp [Live, load, empty]

theorem load_create (address : Nat) :
    (heap.create block).load address = if address = heap.fresh then some block else heap.load address := by
  split
  · next same =>
    subst same
    simp [load, create, fresh]
  · next apart =>
    rcases Nat.lt_or_gt_of_ne apart with below | above
    · rw [load, create, List.getElem?_append_left below]
      rfl
    · rw [load, load, List.getElem?_eq_none, List.getElem?_eq_none (Nat.le_of_lt above)]
      rw [create, List.length_append]
      exact above

theorem load_create_fresh (heap : Heap Block) (block : Block) : (heap.create block).load heap.fresh = some block := by
  rw [load_create, if_pos rfl]

theorem live_create_iff (address : Nat) : (heap.create block).Live address ↔ address = heap.fresh ∨ heap.Live address := by
  rw [Live, load_create]
  split_ifs with same
  · simp [same]
  · simp [same, Live]

theorem load_put (live : heap.Live address) (changed : Option Block) (asked : Nat) :
    (heap.put address changed).load asked = if asked = address then changed else heap.load asked := by
  rw [load, put]
  split
  · next same =>
    subst same
    rw [List.getElem?_set_self live.lt_fresh]
    rfl
  · next apart =>
    rw [List.getElem?_set_ne (Ne.symm apart)]
    rfl

@[simp] theorem fresh_put (heap : Heap Block) (address : Nat) (changed : Option Block) :
    (heap.put address changed).fresh = heap.fresh := List.length_set

theorem Agrees.trans {middle : Heap Block} {addresses : List Nat} (first : heap.Agrees middle addresses)
    (second : middle.Agrees other addresses) : heap.Agrees other addresses :=
  fun address member => (first address member).trans (second address member)

@[simp] theorem agrees_cons_iff {rest : List Nat} : heap.Agrees other (address :: rest) ↔
    heap.load address = other.load address ∧ heap.Agrees other rest := List.forall_mem_cons

@[simp] theorem agrees_append_iff {front back : List Nat} : heap.Agrees other (front ++ back) ↔
    heap.Agrees other front ∧ heap.Agrees other back := List.forall_mem_append

def Frees (heap other : Heap Block) (addresses : List Nat) : Prop :=
  ∀ address, heap.load address = if address ∈ addresses then none else other.load address

theorem Frees.nil (heap : Heap Block) : heap.Frees heap [] := fun address => by simp

theorem Frees.agrees {freed kept : List Nat} (frees : heap.Frees other freed) (apart : kept.Disjoint freed) :
    heap.Agrees other kept := by
  intro address member
  rw [frees address, if_neg (apart member)]

theorem Frees.trans {middle : Heap Block} {first second : List Nat} (later : heap.Frees middle second)
    (earlier : middle.Frees other first) : heap.Frees other (first ++ second) := by
  intro address
  rw [later address, earlier address]
  simp only [List.mem_append]
  split_ifs <;> tauto

theorem Frees.congr {first second : List Nat} (frees : heap.Frees other first)
    (same : ∀ address, address ∈ first ↔ address ∈ second) : heap.Frees other second := by
  intro address
  rw [frees address, if_congr (same address) rfl rfl]

theorem frees_put (live : heap.Live address) : (heap.put address none).Frees heap [address] := by
  intro asked
  rw [load_put live]
  simp

theorem Frees.live_iff {freed : List Nat} (frees : heap.Frees other freed) (address : Nat) :
    heap.Live address ↔ other.Live address ∧ address ∉ freed := by
  rw [Live, frees address]
  split_ifs with member
  · simp [member]
  · simp [member, Live]

def FreesBeside (heap other : Heap Block) (address : Nat) (freed : List Nat) : Prop :=
  ∀ asked, asked ≠ address → heap.load asked = if asked ∈ freed then none else other.load asked

theorem Frees.beside {freed : List Nat} (frees : heap.Frees other freed) (address : Nat) :
    heap.FreesBeside other address freed := fun asked _ => frees asked

theorem FreesBeside.put {freed : List Nat} (frees : heap.FreesBeside other address freed) (live : heap.Live address)
    (changed : Option Block) : (heap.put address changed).FreesBeside other address freed := by
  intro asked apart
  rw [load_put live, if_neg apart, frees asked apart]

theorem FreesBeside.trans {middle : Heap Block} {first second : List Nat} (later : heap.FreesBeside middle address second)
    (earlier : middle.FreesBeside other address first) : heap.FreesBeside other address (first ++ second) := by
  intro asked apart
  rw [later asked apart, earlier asked apart]
  simp only [List.mem_append]
  split_ifs <;> tauto

theorem FreesBeside.agrees {freed kept : List Nat} (frees : heap.FreesBeside other address freed) (notHere : address ∉ kept)
    (apart : kept.Disjoint freed) : heap.Agrees other kept := by
  intro asked member
  have elsewhere : asked ≠ address := fun same => notHere (same ▸ member)
  rw [frees asked elsewhere, if_neg (apart member)]

theorem FreesBeside.freed {freed : List Nat} (frees : heap.FreesBeside other address freed) (live : heap.Live address) :
    (heap.put address none).Frees other (address :: freed) := by
  intro asked
  rw [load_put live]
  by_cases same : asked = address
  · simp [same]
  · simp [same, frees asked same]

end Heap

end Trigger.Foundation
