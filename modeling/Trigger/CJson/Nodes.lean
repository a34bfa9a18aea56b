import Trigger.CJson.Parser
import Trigger.Foundation.Heap
import Trigger.Foundation.Loops

/-! The items of cJSON in memory: how a tree is built, searched and freed.

A pointer is the address of a block or null. An access through a null pointer and an access
to a block that is not there fault, and so does freeing such a block. Whether an allocation
succeeds is answered by the arena. Keys are never constant strings and no item is a
reference, as in every call the program makes.
-/

set_option autoImplicit false

namespace Trigger.CJson
open Foundation Config

abbrev Pointer := Option Nat

inductive Kind where
  | invalid
  | false
  | true
  | null
  | number
  | string
  | array
  | object
  | raw
  deriving DecidableEq

/-- `struct cJSON`, its type split into kind and flags. -/
structure Item where
  next : Pointer
  prev : Pointer
  child : Pointer
  kind : Kind
  isReference : Bool
  stringIsConst : Bool
  valuestring : Pointer
  valueint : Int
  valuedouble : Rat
  string : Pointer
  deriving DecidableEq

/-- `memset(node, '\0', sizeof(cJSON))`. -/
def Item.zero : Item := ⟨none, none, none, .invalid, false, false, none, 0, 0, none⟩

inductive Block where
  | item (item : Item)
  | chars (bytes : Bytes)
  deriving DecidableEq

structure Arena where
  heap : Heap Block
  answers : List Bool

def deref : Pointer → Except Fault Nat
  | some address => .ok address
  | none => .error .nullPointer

namespace Arena

/-- `global_hooks.allocate` and what is written to the block at once. -/
def allocate (arena : Arena) (block : Block) : Pointer × Arena :=
  if arena.answers.headD true then (some arena.heap.fresh, ⟨arena.heap.create block, arena.answers.tail⟩)
  else (none, ⟨arena.heap, arena.answers.tail⟩)

def deallocate (arena : Arena) (address : Nat) : Except Fault Arena :=
  if arena.heap.Live address then .ok { arena with heap := arena.heap.put address none } else .error .outOfBounds

def item (arena : Arena) (address : Nat) : Except Fault Item :=
  match arena.heap.load address with
  | some (.item item) => .ok item
  | some (.chars _) => .error .mismatchedType
  | none => .error .outOfBounds

def chars (arena : Arena) (address : Nat) : Except Fault Bytes :=
  match arena.heap.load address with
  | some (.chars bytes) => .ok bytes
  | some (.item _) => .error .mismatchedType
  | none => .error .outOfBounds

def modify (arena : Arena) (address : Nat) (written : Item → Item) : Except Fault Arena := do
  let item ← arena.item address
  return { arena with heap := arena.heap.put address (some (.item (written item))) }

/-- `if (pointer != NULL) deallocate(pointer);` under a condition. -/
def deallocateIf (arena : Arena) (condition : Bool) (pointer : Pointer) : Except Fault Arena :=
  match condition, pointer with
  | true, some address => arena.deallocate address
  | _, _ => .ok arena

def newItem (arena : Arena) : Pointer × Arena := arena.allocate (.item .zero)

/-- `cJSON_strdup` of a string that is not null. -/
def strdup (arena : Arena) (string : Bytes) : Pointer × Arena := arena.allocate (.chars string)

/-! ## cJSON_Delete -/

/-- A string of an item, unless it is kept, is freed and its field set to null. -/
def freeString (arena : Arena) (address : Nat) (kept : Item → Bool) (pointer : Item → Pointer) (cleared : Item → Item) :
    Except Fault Arena := do
  let item ← arena.item address
  let arena ← arena.deallocateIf (¬ kept item) (pointer item)
  arena.modify address fun item => if ¬ kept item then cleared item else item

/-- What a pass of the loop frees behind the children: the two strings and the item. -/
def freeItem (arena : Arena) (address : Nat) : Except Fault Arena := do
  let arena ← arena.freeString address Item.isReference Item.valuestring fun item => { item with valuestring := none }
  let arena ← arena.freeString address Item.stringIsConst Item.string fun item => { item with string := none }
  arena.deallocate address

/-- The loop over an item and those behind it, with at most `fuel` items below one another or
one behind the other. -/
def deleteWithin : Nat → Arena → Pointer → Except Fault Arena
  | _, arena, none => .ok arena
  | 0, _, some _ => .error .outOfBounds
  | fuel + 1, arena, some address => do
    let item ← arena.item address
    let next := item.next
    let arena ← if ¬ item.isReference then deleteWithin fuel arena item.child else pure arena
    let arena ← arena.freeItem address
    deleteWithin fuel arena next

/-- A tree has no more items than there are blocks, so only a circular structure meets the bound. -/
def delete (arena : Arena) (item : Pointer) : Except Fault Arena := deleteWithin arena.heap.fresh arena item

/-! ## cJSON_Create -/

def create (arena : Arena) (written : Item → Item) : Except Fault (Pointer × Arena) :=
  match arena.newItem with
  | (none, arena) => .ok (none, arena)
  | (some item, arena) => do return (some item, ← arena.modify item written)

def createNull (arena : Arena) : Except Fault (Pointer × Arena) := arena.create fun item => { item with kind := .null }

def createTrue (arena : Arena) : Except Fault (Pointer × Arena) := arena.create fun item => { item with kind := .true }

def createFalse (arena : Arena) : Except Fault (Pointer × Arena) := arena.create fun item => { item with kind := .false }

def createNumber (arena : Arena) (num : Rat) : Except Fault (Pointer × Arena) :=
  arena.create fun item => { item with kind := .number, valuedouble := num, valueint := saturated num }

def createArray (arena : Arena) : Except Fault (Pointer × Arena) := arena.create fun item => { item with kind := .array }

def createObject (arena : Arena) : Except Fault (Pointer × Arena) := arena.create fun item => { item with kind := .object }

def createString (arena : Arena) (string : Bytes) : Except Fault (Pointer × Arena) :=
  match arena.newItem with
  | (none, arena) => .ok (none, arena)
  | (some item, arena) => do
    let arena ← arena.modify item fun item => { item with kind := .string }
    let (copy, arena) := arena.strdup string
    let arena ← arena.modify item fun item => { item with valuestring := copy }
    match copy with
    | some _ => return (some item, arena)
    | none => return (none, ← arena.delete (some item))

/-! ## cJSON_AddItemToArray, cJSON_AddItemToObject -/

def suffixObject (arena : Arena) (prev item : Nat) : Except Fault Arena := do
  let arena ← arena.modify prev fun node => { node with next := some item }
  arena.modify item fun node => { node with prev := some prev }

def addItemToArray (arena : Arena) (array item : Pointer) : Except Fault (Bool × Arena) :=
  match array, item with
  | some array, some item =>
    if array = item then .ok (false, arena)
    else do
      match (← arena.item array).child with
      | none =>
        let arena ← arena.modify array fun node => { node with child := some item }
        let arena ← arena.modify item fun node => { node with prev := some item }
        let arena ← arena.modify item fun node => { node with next := none }
        return (true, arena)
      | some child =>
        match (← arena.item child).prev with
        | none => return (true, arena)
        | some last =>
          let arena ← arena.suffixObject last item
          let first ← deref (← arena.item array).child
          let arena ← arena.modify first fun node => { node with prev := some item }
          return (true, arena)
  | _, _ => .ok (false, arena)

/-- `add_item_to_object` with a key that is copied. -/
def addItemToObject (arena : Arena) (object : Pointer) (string : Bytes) (item : Pointer) : Except Fault (Bool × Arena) :=
  match object, item with
  | some object, some item =>
    if object = item then .ok (false, arena)
    else
      match arena.strdup string with
      | (none, arena) => .ok (false, arena)
      | (some newKey, arena) => do
        let node ← arena.item item
        let arena ← arena.deallocateIf (¬ node.stringIsConst) node.string
        let arena ← arena.modify item fun node => { node with string := some newKey, stringIsConst := false }
        arena.addItemToArray (some object) (some item)
  | _, _ => .ok (false, arena)

/-- What the functions that create an item and add it do with it. -/
def addCreated (created : Except Fault (Pointer × Arena)) (object : Pointer) (name : Bytes) :
    Except Fault (Pointer × Arena) := do
  let (item, arena) ← created
  let (added, arena) ← arena.addItemToObject object name item
  if added then return (item, arena) else return (none, ← arena.delete item)

def addNumberToObject (arena : Arena) (object : Pointer) (name : Bytes) (number : Rat) : Except Fault (Pointer × Arena) :=
  addCreated (arena.createNumber number) object name

def addStringToObject (arena : Arena) (object : Pointer) (name string : Bytes) : Except Fault (Pointer × Arena) :=
  addCreated (arena.createString string) object name

/-- `(item->type & 0xFF) == cJSON_Array`; a null pointer is no array. -/
def isArray (arena : Arena) : Pointer → Except Fault Bool
  | none => .ok false
  | some address => do return (← arena.item address).kind = .array

def walk (arena : Arena) : Nat → Pointer → Except Fault Pointer
  | _, none => .ok none
  | 0, current => .ok current
  | index + 1, some current => do arena.walk index (← arena.item current).next

def getArrayItem (arena : Arena) (array : Pointer) (index : Int) : Except Fault Pointer :=
  if index < 0 then .ok none
  else
    match array with
    | none => .ok none
    | some array => do arena.walk index.toNat (← arena.item array).child

/-- A pass of the loop of `cJSON_GetArraySize`: the child and the items counted so far. -/
def sizePass (arena : Arena) : Pointer × Nat → Except Fault (Pass (Pointer × Nat) Nat)
  | (none, size) => .ok (.leave size)
  | (some child, size) => do return .goOn ((← arena.item child).next, size + 1)

/-- `(int)size`. -/
def sizeAsInt (size : Nat) : Int := Int.bmod size (2 ^ 32)

/-- `cJSON_GetArraySize` returns this size; the count is cut to an `int`. -/
def getArraySize (arena : Arena) (array : Pointer) (result : Int) : Prop :=
  match array with
  | none => result = 0
  | some array => ∃ item size, arena.item array = .ok item ∧ Returns arena.sizePass (item.child, 0) size ∧
      result = sizeAsInt size

/-- A pass of the loop of `get_object_item` that does not heed the case of letters. An item without
a name is never the one. -/
def searchPass (arena : Arena) (name : Bytes) : Pointer → Except Fault (Pass Pointer Pointer)
  | none => .ok (.leave none)
  | some current => do
    let item ← arena.item current
    match item.string with
    | none => return .goOn item.next
    | some string =>
      if Json.caseInsensitiveEq name (← arena.chars string) then return .leave (some current)
      else return .goOn item.next

/-- `cJSON_GetObjectItem` returns this item, for a name that is not null. -/
def getObjectItem (arena : Arena) (object : Pointer) (name : Bytes) (result : Pointer) : Prop :=
  match object with
  | none => result = none
  | some object => ∃ item, arena.item object = .ok item ∧ Returns (arena.searchPass name) item.child result

end Arena

end Trigger.CJson
