import Trigger.CJson.Nodes
import Trigger.Foundation.Fallible
import Mathlib.Data.List.Perm.Subperm

/-! Which blocks of memory stand for which tree, and that deleting frees exactly these. -/

set_option autoImplicit false

namespace Trigger.CJson
open Foundation Config

/-- A null pointer, or one to a string in a block of its own. -/
inductive Chars (heap : Heap Block) : Pointer → Option Bytes → List Nat → Prop where
  | none : Chars heap none none []
  | some {address : Nat} {bytes : Bytes} (loaded : heap.load address = some (.chars bytes)) :
      Chars heap (some address) (some bytes) [address]

/-- The tree of an item of this kind and number, with this string and these children, each with
its name. -/
inductive Denotes : Kind → Int → Option Bytes → List (Option Bytes × Json) → Json → Prop where
  | null {valueint : Int} : Denotes .null valueint none [] .null
  | false {valueint : Int} : Denotes .false valueint none [] .false
  | true {valueint : Int} : Denotes .true valueint none [] .true
  | number (valueint : Int) : Denotes .number valueint none [] (.number valueint)
  | string {valueint : Int} (bytes : Bytes) : Denotes .string valueint (some bytes) [] (.string bytes)
  | array {valueint : Int} (items : List Json) :
      Denotes .array valueint none (items.map fun json => (none, json)) (.array items)
  | object {valueint : Int} (members : List (Bytes × Json)) :
      Denotes .object valueint none (members.map fun member => (some member.1, member.2)) (.object members)

structure Linked (item : Item) (prev next child : Pointer) : Prop where
  next : item.next = next
  prev : item.prev = prev
  child : item.child = child

/-- The item frees its strings and its children itself. -/
structure Owner (item : Item) : Prop where
  notReference : item.isReference = false
  notConst : item.stringIsConst = false

/-- Items in a row: their addresses, their names and trees, and all blocks they own. The first
points back to `prev`; below an item its first child points back to the last one. -/
inductive Forest (heap : Heap Block) : Pointer → List Nat → List (Option Bytes × Json) → List Nat → Prop where
  | nil {prev : Pointer} : Forest heap prev [] [] []
  | cons {prev : Pointer} {address : Nat} {rest children : List Nat} {item : Item} {key value : Option Bytes}
      {members others : List (Option Bytes × Json)} {json : Json} {named valued below behind : List Nat}
      (loaded : heap.load address = some (.item item)) (linked : Linked item prev rest.head? children.head?)
      (owner : Owner item) (name : Chars heap item.string key named) (own : Chars heap item.valuestring value valued)
      (denotes : Denotes item.kind item.valueint value members json) (inner : Forest heap children.getLast? children members below)
      (later : Forest heap (some address) rest others behind) :
      Forest heap prev (address :: rest) ((key, json) :: others) (address :: (named ++ valued ++ below ++ behind))

section
variable {heap other : Heap Block} {prev : Pointer} {addresses blocks : List Nat} {members : List (Option Bytes × Json)}

theorem Chars.agrees {pointer : Pointer} {bytes : Option Bytes} (chars : Chars heap pointer bytes blocks)
    (agrees : other.Agrees heap blocks) : Chars other pointer bytes blocks := by
  cases chars with
  | none => exact .none
  | some loaded => exact .some ((agrees _ (List.mem_singleton.mpr rfl)).trans loaded)

theorem null_of_chars {pointer : Pointer} (chars : Chars heap pointer none blocks) : pointer = none ∧ blocks = [] := by
  cases chars
  exact ⟨rfl, rfl⟩

/-- The frame rule: a tree stands as long as its own blocks do. -/
theorem Forest.agrees (forest : Forest heap prev addresses members blocks) (agrees : other.Agrees heap blocks) :
    Forest other prev addresses members blocks := by
  induction forest with
  | nil => exact .nil
  | cons loaded linked owner name own denotes _ _ ihInner ihLater =>
    simp only [Heap.agrees_cons_iff, Heap.agrees_append_iff] at agrees
    obtain ⟨here, ⟨⟨inName, inOwn⟩, inInner⟩, inLater⟩ := agrees
    exact .cons (here.trans loaded) linked owner (name.agrees inName) (own.agrees inOwn) denotes (ihInner inInner)
      (ihLater inLater)

theorem Forest.addresses_subset (forest : Forest heap prev addresses members blocks) : addresses ⊆ blocks := by
  induction forest with
  | nil => exact List.Subset.refl []
  | cons _ _ _ _ _ _ _ _ _ ih =>
    apply List.cons_subset_cons
    exact List.subset_append_of_subset_right _ ih

theorem Forest.loaded_of_mem (forest : Forest heap prev addresses members blocks) {address : Nat}
    (member : address ∈ addresses) : ∃ item, heap.load address = some (.item item) := by
  induction forest with
  | nil => cases member
  | cons loaded _ _ _ _ _ _ _ _ ih =>
    rcases List.mem_cons.mp member with rfl | later
    · exact ⟨_, loaded⟩
    · exact ih later

theorem Chars.live {pointer : Pointer} {bytes : Option Bytes} (chars : Chars heap pointer bytes blocks) :
    ∀ address ∈ blocks, heap.Live address := by
  cases chars with
  | none => simp
  | some loaded => simpa using Heap.live_of_load loaded

theorem Forest.live (forest : Forest heap prev addresses members blocks) : ∀ address ∈ blocks, heap.Live address := by
  induction forest with
  | nil => simp
  | cons loaded _ _ name own _ _ _ ihInner ihLater =>
    intro address member
    simp only [List.mem_cons, List.mem_append] at member
    rcases member with rfl | ((member | member) | member) | member
    · exact Heap.live_of_load loaded
    · exact name.live address member
    · exact own.live address member
    · exact ihInner address member
    · exact ihLater address member

theorem Forest.rebase {address : Nat} {rest : List Nat} {item : Item} {back : Pointer}
    (forest : Forest heap prev (address :: rest) members blocks) (nodup : blocks.Nodup)
    (loaded : heap.load address = some (.item item)) (written : other.load address = some (.item { item with prev := back }))
    (kept : ∀ asked ∈ blocks, asked ≠ address → other.load asked = heap.load asked) :
    Forest other back (address :: rest) members blocks := by
  cases forest with
  | cons loaded' linked owner name own denotes inner later =>
    cases loaded.symm.trans loaded'
    obtain ⟨notHere, -⟩ := List.nodup_cons.mp nodup
    rw [List.forall_mem_cons] at kept
    have agrees : other.Agrees heap _ := fun asked member => kept.2 asked member fun same => notHere (same ▸ member)
    simp only [Heap.agrees_append_iff] at agrees
    obtain ⟨⟨⟨inName, inOwn⟩, inInner⟩, inLater⟩ := agrees
    exact .cons written ⟨linked.next, rfl, linked.child⟩ ⟨owner.notReference, owner.notConst⟩ (name.agrees inName)
      (own.agrees inOwn) denotes (inner.agrees inInner) (later.agrees inLater)

theorem Forest.append {last : Nat} {item : Item} {more further : List Nat} {added : List (Option Bytes × Json)}
    (forest : Forest heap prev addresses members blocks) (nodup : blocks.Nodup) (isLast : addresses.getLast? = some last)
    (loaded : heap.load last = some (.item item))
    (written : other.load last = some (.item { item with next := more.head? }))
    (kept : ∀ asked ∈ blocks, asked ≠ last → other.load asked = heap.load asked)
    (tail : Forest other (some last) more added further) :
    Forest other prev (addresses ++ more) (members ++ added) (blocks ++ further) := by
  induction forest with
  | nil => cases isLast
  | @cons prev address rest children here key value inside others json named valued below behind
      loadedHere linked owner name own denotes inner later _ ihLater =>
    simp only [List.nodup_cons, List.nodup_append', List.mem_append, not_or, List.disjoint_append_left] at nodup
    obtain ⟨⟨⟨⟨notNamed, notValued⟩, notBelow⟩, notBehind⟩, -, behindOnce, ⟨namedBehind, valuedBehind⟩, belowBehind⟩ := nodup
    rw [List.forall_mem_cons] at kept
    rw [List.cons_append, List.cons_append, List.cons_append, List.append_assoc]
    cases rest with
    | nil =>
      -- The last item is this one.
      cases isLast
      cases loadedHere.symm.trans loaded
      cases later
      have agrees : other.Agrees heap (named ++ valued ++ below) := by
        intro asked member
        refine kept.2 asked (by simpa using member) fun same => ?_
        subst same
        simp [notNamed, notValued, notBelow] at member
      simp only [Heap.agrees_append_iff] at agrees
      obtain ⟨⟨inName, inOwn⟩, inInner⟩ := agrees
      exact .cons written ⟨rfl, linked.prev, linked.child⟩ ⟨owner.notReference, owner.notConst⟩ (name.agrees inName)
        (own.agrees inOwn) denotes (inner.agrees inInner) tail
    | cons second rest =>
      have lastBehind : last ∈ behind := later.addresses_subset (List.mem_of_getLast? isLast)
      have apart : ∀ asked ∈ address :: (named ++ valued ++ below), asked ≠ last := by
        rintro asked member rfl
        simp only [List.mem_cons, List.mem_append] at member
        rcases member with rfl | (member | member) | member
        · exact notBehind lastBehind
        · exact namedBehind member lastBehind
        · exact valuedBehind member lastBehind
        · exact belowBehind member lastBehind
      rw [List.forall_mem_cons] at apart
      have agrees : other.Agrees heap (named ++ valued ++ below) := fun asked member =>
        kept.2 asked (List.mem_append_left _ member) (apart.2 asked member)
      simp only [Heap.agrees_append_iff] at agrees
      obtain ⟨⟨inName, inOwn⟩, inInner⟩ := agrees
      refine .cons ((kept.1 apart.1).trans loadedHere) linked owner (name.agrees inName) (own.agrees inOwn) denotes
        (inner.agrees inInner) ?_
      exact ihLater behindOnce isLast fun asked member => kept.2 asked (List.mem_append_right _ member)

theorem length_le_fresh (nodup : blocks.Nodup) (live : ∀ address ∈ blocks, heap.Live address) :
    blocks.length ≤ heap.fresh := by
  have subset : blocks ⊆ List.range heap.fresh := fun address member => List.mem_range.mpr (live address member).lt_fresh
  calc blocks.length ≤ (List.range heap.fresh).length := (List.subperm_of_subset nodup subset).length_le
    _ = heap.fresh := List.length_range

end

namespace Arena

section
variable {arena : Arena} {address : Nat} {item : Item} {bytes : Bytes}

theorem item_of_load (loaded : arena.heap.load address = some (.item item)) : arena.item address = .ok item := by
  rw [Arena.item, loaded]

theorem chars_of_load (loaded : arena.heap.load address = some (.chars bytes)) : arena.chars address = .ok bytes := by
  rw [Arena.chars, loaded]

theorem modify_of_load (loaded : arena.heap.load address = some (.item item)) (written : Item → Item) :
    arena.modify address written =
      .ok { arena with heap := arena.heap.put address (some (.item (written item))) } := by
  rw [modify, item_of_load loaded]
  rfl

theorem deallocate_of_live (live : arena.heap.Live address) :
    arena.deallocate address = .ok { arena with heap := arena.heap.put address none } := if_pos live

end

/-- The arena with another item at an address. -/
structure Wrote (after before : Arena) (address : Nat) (item : Item) : Prop where
  loaded : after.heap.load address = some (.item item)
  kept : ∀ asked, asked ≠ address → after.heap.load asked = before.heap.load asked
  answers : after.answers = before.answers

theorem modify_wrote {arena : Arena} {address : Nat} {item : Item}
    (loaded : arena.heap.load address = some (.item item)) (written : Item → Item) :
    ∃ after, arena.modify address written = .ok after ∧ Wrote after arena address (written item) := by
  have live := Heap.live_of_load loaded
  refine ⟨_, modify_of_load loaded written, ?_, ?_, rfl⟩
  · exact (Heap.load_put live _ _).trans (if_pos rfl)
  · intro asked apart
    exact (Heap.load_put live _ _).trans (if_neg apart)

theorem Wrote.live_iff {after before : Arena} {address : Nat} {item : Item} (wrote : Wrote after before address item)
    (live : before.heap.Live address) (asked : Nat) : after.heap.Live asked ↔ before.heap.Live asked := by
  by_cases same : asked = address
  · subst same
    exact iff_of_true (Heap.live_of_load wrote.loaded) live
  · rw [Heap.Live, wrote.kept asked same, Heap.Live]

/-- The arena with these blocks freed. -/
structure Freed (after before : Arena) (blocks : List Nat) : Prop where
  frees : after.heap.Frees before.heap blocks
  fresh : after.heap.fresh = before.heap.fresh
  answers : after.answers = before.answers

theorem deallocateIf_null (arena : Arena) (condition : Bool) : arena.deallocateIf condition none = .ok arena := by
  cases condition <;> rfl

theorem deallocateIf_frees {heap : Heap Block} {arena : Arena} {pointer : Pointer} {bytes : Option Bytes} {blocks : List Nat}
    (chars : Chars heap pointer bytes blocks) (agrees : arena.heap.Agrees heap blocks) :
    ∃ after, arena.deallocateIf true pointer = .ok after ∧ Freed after arena blocks := by
  cases chars with
  | none => exact ⟨arena, rfl, Heap.Frees.nil _, rfl, rfl⟩
  | some loaded =>
    have live := Heap.live_of_load ((agrees _ (List.mem_singleton.mpr rfl)).trans loaded)
    exact ⟨_, deallocate_of_live live, Heap.frees_put live, Heap.fresh_put .., rfl⟩

/-! ## cJSON_Delete -/

theorem deleteWithin_none (fuel : Nat) (arena : Arena) : arena.deleteWithin fuel none = .ok arena := by
  cases fuel <;> rfl

theorem freeString_frees {arena : Arena} {address : Nat} {item : Item} (kept : Item → Bool) (pointer : Item → Pointer)
    (cleared : Item → Item) {bytes : Option Bytes} {blocks : List Nat}
    (loaded : arena.heap.load address = some (.item item)) (owned : kept item = false)
    (chars : Chars arena.heap (pointer item) bytes blocks) (apart : address ∉ blocks) :
    ∃ after, arena.freeString address kept pointer cleared = .ok after ∧
      after.heap.FreesBeside arena.heap address blocks ∧ after.heap.load address = some (.item (cleared item)) ∧
      after.heap.fresh = arena.heap.fresh ∧ after.answers = arena.answers := by
  obtain ⟨after, freed, frees⟩ := deallocateIf_frees chars (fun _ _ => rfl)
  have still : after.heap.load address = some (.item item) := by rw [frees.frees address, if_neg apart, loaded]
  have live := Heap.live_of_load still
  refine ⟨⟨after.heap.put address (some (.item (cleared item))), after.answers⟩, ?_, ?_, ?_, ?_, frees.answers⟩
  · simp only [freeString, item_of_load loaded, ok_bind, owned, Bool.false_eq_true, not_false_eq_true, decide_true, freed,
      modify_of_load still, if_true]
  · exact (frees.frees.beside address).put live _
  · rw [Heap.load_put live, if_pos rfl]
  · rw [Heap.fresh_put, frees.fresh]

/-- The strings and the item are freed; what is written to the item in between goes with it. -/
theorem freeItem_frees {arena : Arena} {address : Nat} {item : Item} {key value : Option Bytes} {named valued : List Nat}
    (loaded : arena.heap.load address = some (.item item)) (owner : Owner item)
    (name : Chars arena.heap item.string key named) (own : Chars arena.heap item.valuestring value valued)
    (notNamed : address ∉ named) (notValued : address ∉ valued) (apart : named.Disjoint valued) :
    ∃ after, arena.freeItem address = .ok after ∧ Freed after arena (address :: (valued ++ named)) := by
  obtain ⟨first, freedOwn, besideOwn, loadedFirst, freshFirst, answersFirst⟩ :=
    freeString_frees Item.isReference Item.valuestring (fun item => { item with valuestring := none }) loaded owner.notReference own notValued
  have nameThere := name.agrees (besideOwn.agrees notNamed apart)
  obtain ⟨second, freedName, besideName, loadedSecond, freshSecond, answersSecond⟩ :=
    freeString_frees Item.stringIsConst Item.string (fun item => { item with string := none }) loadedFirst owner.notConst nameThere notNamed
  have live := Heap.live_of_load loadedSecond
  refine ⟨{ second with heap := second.heap.put address none }, ?_, (besideName.trans besideOwn).freed live, ?_, ?_⟩
  · rw [freeItem, freedOwn, ok_bind, freedName, ok_bind, deallocate_of_live live]
  · rw [Heap.fresh_put, freshSecond, freshFirst]
  · exact answersSecond.trans answersFirst

theorem delete_leaf {arena : Arena} {address : Nat} {item : Item} {prev : Pointer} {key value : Option Bytes}
    {named valued : List Nat} (loaded : arena.heap.load address = some (.item item)) (linked : Linked item prev none none)
    (owner : Owner item) (name : Chars arena.heap item.string key named)
    (own : Chars arena.heap item.valuestring value valued) (notNamed : address ∉ named) (notValued : address ∉ valued)
    (apart : named.Disjoint valued) :
    ∃ after, arena.delete (some address) = .ok after ∧ Freed after arena (address :: (valued ++ named)) := by
  obtain ⟨after, freed, frees⟩ := freeItem_frees loaded owner name own notNamed notValued apart
  obtain ⟨fuel, some⟩ : ∃ less, arena.heap.fresh = less + 1 :=
    Nat.exists_eq_add_one.mpr (Nat.zero_lt_of_lt (Heap.live_of_load loaded).lt_fresh)
  refine ⟨after, ?_, frees⟩
  rw [delete, some, deleteWithin, item_of_load loaded]
  simp only [ok_bind, owner.notReference, Bool.false_eq_true, not_false_eq_true, if_true, linked.child, deleteWithin_none, freed,
    linked.next]

/-- Deleting the first of some items frees their blocks, each once, and no other. -/
theorem deleteWithin_frees {heap : Heap Block} {prev : Pointer} {addresses blocks : List Nat}
    {members : List (Option Bytes × Json)} (forest : Forest heap prev addresses members blocks) (nodup : blocks.Nodup)
    (arena : Arena) (agrees : arena.heap.Agrees heap blocks) (fuel : Nat) (enough : blocks.length ≤ fuel) :
    ∃ after, arena.deleteWithin fuel addresses.head? = .ok after ∧ Freed after arena blocks := by
  induction forest generalizing arena fuel with
  | nil => exact ⟨arena, deleteWithin_none fuel arena, Heap.Frees.nil _, rfl, rfl⟩
  | @cons prev address rest children item key value members others json named valued below behind
      loaded linked owner name own denotes inner later ihInner ihLater =>
    obtain ⟨fuel, rfl⟩ : ∃ less, fuel = less + 1 := ⟨fuel - 1, by simp at enough; omega⟩
    simp only [List.length_cons, List.length_append, Nat.add_le_add_iff_right] at enough
    simp only [Heap.agrees_cons_iff, Heap.agrees_append_iff] at agrees
    obtain ⟨here, ⟨⟨inName, inOwn⟩, inInner⟩, inLater⟩ := agrees
    simp only [List.nodup_cons, List.nodup_append', List.mem_append, not_or, List.disjoint_append_left] at nodup
    obtain ⟨⟨⟨⟨notNamed, notValued⟩, notBelow⟩, notBehind⟩, ⟨⟨namedOnce, valuedOnce, apartStrings⟩, belowOnce, namedBelow,
      valuedBelow⟩, behindOnce, ⟨namedBehind, valuedBehind⟩, belowBehind⟩ := nodup
    have loadedHere : arena.heap.load address = some (.item item) := here.trans loaded
    -- The children first: they are not the item, its strings or what comes behind it.
    obtain ⟨first, deleted, freedBelow⟩ := ihInner belowOnce arena inInner fuel (by omega)
    have kept : first.heap.load address = some (.item item) := by
      rw [freedBelow.frees address, if_neg notBelow, loadedHere]
    obtain ⟨second, freedItem, freedHere⟩ := freeItem_frees kept owner
      (name.agrees ((freedBelow.frees.agrees namedBelow).trans inName))
      (own.agrees ((freedBelow.frees.agrees valuedBelow).trans inOwn)) notNamed notValued apartStrings
    have behindThere : second.heap.Agrees heap behind := by
      have apartHere : behind.Disjoint (address :: (valued ++ named)) := by
        simp [List.disjoint_cons_right, List.disjoint_append_right, notBehind, namedBehind.symm, valuedBehind.symm]
      exact (freedHere.frees.agrees apartHere).trans ((freedBelow.frees.agrees belowBehind.symm).trans inLater)
    obtain ⟨third, deletedRest, freedRest⟩ := ihLater behindOnce second behindThere fuel (by omega)
    refine ⟨third, ?_, ?_, ?_, ?_⟩
    · rw [List.head?_cons, deleteWithin, item_of_load loadedHere]
      simp only [ok_bind, owner.notReference, Bool.false_eq_true, not_false_eq_true, if_true, linked.child, deleted, freedItem,
        linked.next, deletedRest]
    · refine ((freedRest.frees.trans freedHere.frees).trans freedBelow.frees).congr fun asked => ?_
      simp only [List.mem_append, List.mem_cons]
      tauto
    · rw [freedRest.fresh, freedHere.fresh, freedBelow.fresh]
    · rw [freedRest.answers, freedHere.answers, freedBelow.answers]

end Arena

end Trigger.CJson
