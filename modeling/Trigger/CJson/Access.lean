import Trigger.CJson.Forest

/-! Searching a tree in memory finds what the tree has. -/

set_option autoImplicit false

namespace Trigger.CJson
open Foundation Config

/-- An item that stands for a tree, wherever it is among its siblings. -/
inductive Node (heap : Heap Block) (address : Nat) (json : Json) : Prop where
  | intro {item : Item} {value : Option Bytes} {children valued below : List Nat} {members : List (Option Bytes × Json)}
      (loaded : heap.load address = some (.item item)) (child : item.child = children.head?)
      (own : Chars heap item.valuestring value valued) (denotes : Denotes item.kind item.valueint value members json)
      (inner : Forest heap children.getLast? children members below)

theorem Forest.node {heap : Heap Block} {prev : Pointer} {root : Nat} {key : Option Bytes} {json : Json} {blocks : List Nat}
    (forest : Forest heap prev [root] [(key, json)] blocks) : Node heap root json := by
  cases forest with
  | cons loaded linked _ _ own denotes inner _ => exact .intro loaded linked.child own denotes inner

/-- A pointer to a tree, null where there is none. -/
inductive Points (heap : Heap Block) : Pointer → Option Json → Prop where
  | null : Points heap none none
  | node {address : Nat} {json : Json} (node : Node heap address json) : Points heap (some address) (some json)

def children : Json → List Json
  | .array items => items
  | .object members => members.map (·.2)
  | _ => []

section
variable {kind : Kind} {valueint : Int} {value : Option Bytes} {members : List (Option Bytes × Json)} {json : Json}

theorem Denotes.children_eq (denotes : Denotes kind valueint value members json) : members.map (·.2) = children json := by
  cases denotes with
  | array items =>
    rw [List.map_map]
    exact List.map_id items
  | object members =>
    rw [List.map_map]
    rfl
  | _ => rfl

theorem Denotes.find_eq (denotes : Denotes kind valueint value members json) (name : Bytes) :
    (members.find? fun member => member.1.any (Json.caseInsensitiveEq name)).map (·.2) = json.getObjectItem name := by
  cases denotes with
  | array items => simp [Json.getObjectItem, List.find?_map, Function.comp_def]
  | object members => simp [Json.getObjectItem, List.find?_map, Function.comp_def]
  | _ => rfl

end

namespace Arena

variable {arena : Arena} {prev : Pointer} {addresses blocks : List Nat} {members : List (Option Bytes × Json)}

theorem walk_points (forest : Forest arena.heap prev addresses members blocks) (index : Nat) :
    ∃ result, arena.walk index addresses.head? = .ok result ∧ Points arena.heap result (members[index]?.map (·.2)) := by
  induction forest generalizing index with
  | nil => exact ⟨none, by cases index <;> rfl, .null⟩
  | @cons _ address rest _ _ _ _ _ _ _ _ _ _ _ loaded linked _ _ own denotes inner _ _ ih =>
    cases index with
    | zero => exact ⟨some address, rfl, .node (.intro loaded linked.child own denotes inner)⟩
    | succ index =>
      obtain ⟨result, walked, points⟩ := ih index
      refine ⟨result, ?_, points⟩
      rw [List.head?_cons, walk, item_of_load loaded, ok_bind, linked.next, walked]

theorem size_returns (forest : Forest arena.heap prev addresses members blocks) (counted : Nat) :
    Returns arena.sizePass (addresses.head?, counted) (counted + members.length) := by
  induction forest generalizing counted with
  | nil => exact ⟨_, .refl _, rfl⟩
  | @cons _ address rest _ _ _ _ _ _ _ _ _ _ _ loaded linked _ _ _ _ _ _ _ ih =>
    have taken : arena.sizePass (some address, counted) = .ok (.goOn (rest.head?, counted + 1)) := by
      rw [sizePass, item_of_load loaded, ok_bind, linked.next]
      rfl
    have later := ih (counted + 1)
    rw [Nat.add_right_comm] at later
    exact (returns_iff_of_goOn taken).mpr later

theorem search_returns (forest : Forest arena.heap prev addresses members blocks) (name : Bytes) :
    ∃ result, Returns (arena.searchPass name) addresses.head? result ∧ Points arena.heap result
      ((members.find? fun member => member.1.any (Json.caseInsensitiveEq name)).map (·.2)) := by
  induction forest with
  | nil => exact ⟨none, ⟨_, .refl _, rfl⟩, .null⟩
  | @cons _ address rest _ item key _ _ others json _ _ _ _ loaded linked _ named own denotes inner _ _ ih =>
    obtain ⟨result, returned, points⟩ := ih
    have goesOn (taken : arena.searchPass name (some address) = .ok (.goOn rest.head?)) :
        Returns (arena.searchPass name) (some address) result := (returns_iff_of_goOn taken).mpr returned
    rw [List.head?_cons]
    cases key with
    | none =>
      obtain ⟨unnamed, -⟩ := null_of_chars named
      refine ⟨result, goesOn ?_, by simpa using points⟩
      rw [searchPass, item_of_load loaded, ok_bind, unnamed, linked.next]
      rfl
    | some string =>
      obtain ⟨at_, points_, copied⟩ : ∃ at_, item.string = some at_ ∧ arena.heap.load at_ = some (.chars string) := by
        generalize item.string = pointer at named
        cases named with
        | some loaded => exact ⟨_, rfl, loaded⟩
      have entered : arena.searchPass name (some address) =
          if Json.caseInsensitiveEq name string then .ok (.leave (some address)) else .ok (.goOn rest.head?) := by
        rw [searchPass, item_of_load loaded, ok_bind, points_]
        dsimp only
        rw [chars_of_load copied, ok_bind, linked.next]
        rfl
      by_cases same : Json.caseInsensitiveEq name string
      · rw [if_pos same] at entered
        refine ⟨some address, ⟨_, .refl _, entered⟩, ?_⟩
        simpa [same] using Points.node (.intro loaded linked.child own denotes inner)
      · rw [if_neg same] at entered
        exact ⟨result, goesOn entered, by simpa [same] using points⟩

end Arena

/-- What the accessors find by way of the items' pointers is what the tree has: each item at its index,
how many there are, and the first member of a name. -/
theorem accessors_refine {arena : Arena} {address : Nat} {json : Json} (node : Node arena.heap address json) :
    (∀ index : Int, ∃ result, arena.getArrayItem (some address) index = .ok result ∧
      Points arena.heap result (if index < 0 then none else (children json)[index.toNat]?)) ∧
    (∀ size, arena.getArraySize (some address) size ↔ size = Arena.sizeAsInt (children json).length) ∧
    ∀ name, ∃ result, (∀ found, arena.getObjectItem (some address) name found ↔ found = result) ∧
      Points arena.heap result (json.getObjectItem name) := by
  obtain ⟨loaded, child, own, denotes, inner⟩ := node
  have item := Arena.item_of_load loaded
  refine ⟨fun index => ?_, fun size => ?_, fun name => ?_⟩
  · rw [Arena.getArrayItem]
    split_ifs
    · exact ⟨none, rfl, .null⟩
    · obtain ⟨result, walked, points⟩ := Arena.walk_points inner index.toNat
      rw [← List.getElem?_map, denotes.children_eq] at points
      refine ⟨result, ?_, points⟩
      rw [item, ok_bind, child, walked]
  · have counted := Arena.size_returns inner 0
    rw [← child, Nat.zero_add, ← List.length_map (·.2), denotes.children_eq] at counted
    constructor
    · intro ⟨other, found, isItem, returned, same⟩
      cases item.symm.trans isItem
      rw [same, returned.unique counted]
    · intro same
      exact ⟨_, _, item, counted, same⟩
  · obtain ⟨result, returned, points⟩ := Arena.search_returns inner name
    rw [← child] at returned
    rw [denotes.find_eq] at points
    refine ⟨result, fun found => ⟨?_, ?_⟩, points⟩
    · rintro ⟨other, isItem, found⟩
      cases item.symm.trans isItem
      exact found.unique returned
    · rintro rfl
      exact ⟨_, item, returned⟩

def memberArena : Arena where
  heap := ⟨[some (.item { Item.zero with kind := .object, child := some 1 }),
    some (.item { Item.zero with kind := .null, prev := some 1, string := some 2 }), some (.chars [97])]⟩
  answers := []

theorem memberArena_accessors :
    (∀ index : Int, ∃ result, memberArena.getArrayItem (some 0) index = .ok result ∧
      Points memberArena.heap result (if index < 0 then none else (children (.object [([97], .null)]))[index.toNat]?)) ∧
    (∀ size, memberArena.getArraySize (some 0) size ↔ size = Arena.sizeAsInt (children (.object [([97], .null)])).length) ∧
    ∀ name, ∃ result, (∀ found, memberArena.getObjectItem (some 0) name found ↔ found = result) ∧
      Points memberArena.heap result (Json.getObjectItem (.object [([97], .null)]) name) := by
  have item : memberArena.heap.load 1 = some (.item { Item.zero with kind := .null, prev := some 1, string := some 2 }) := rfl
  have name : Chars memberArena.heap (some 2) (some [97]) [2] := .some rfl
  have childless : Forest memberArena.heap ([] : List Nat).getLast? [] [] [] := .nil
  have inner : Forest memberArena.heap [1].getLast? [1] [(some [97], .null)] _ :=
    .cons item ⟨rfl, rfl, rfl⟩ ⟨rfl, rfl⟩ name .none .null childless .nil
  have denotes : Denotes .object 0 none [(some [97], .null)] (.object [([97], .null)]) := .object [([97], .null)]
  have node : Node memberArena.heap 0 (.object [([97], .null)]) := .intro rfl rfl .none denotes inner
  exact accessors_refine node

end Trigger.CJson
