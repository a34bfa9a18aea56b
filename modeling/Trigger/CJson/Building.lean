import Trigger.CJson.Holdings

/-! Trees built from their leaves: each container is created, filled in order and put into the next one. -/

set_option autoImplicit false

namespace Trigger.CJson
open Foundation Config

abbrev Building := Arena → Except Fault (Pointer × Arena)

/-- Adds something to a container. What the call returned is not looked at. -/
abbrev Filling := Pointer → Arena → Except Fault Arena

namespace Filling

def number (name : Bytes) (n : Rat) : Filling := fun object arena => do
  return (← arena.addNumberToObject object name n).2

def string (name string : Bytes) : Filling := fun object arena => do
  return (← arena.addStringToObject object name string).2

def item (name : Bytes) (building : Building) : Filling := fun object arena => do
  let (item, arena) ← building arena
  return (← arena.addItemToObject object name item).2

def element (building : Building) : Filling := fun array arena => do
  let (item, arena) ← building arena
  return (← arena.addItemToArray array item).2

def inOrder (fillings : List Filling) : Filling := fun container arena =>
  fillings.foldlM (fun arena filling => filling container arena) arena

end Filling

namespace Building

def number (n : Rat) : Building := fun arena => arena.createNumber n

def object (fillings : List Filling) : Building := fun arena => do
  let (object, arena) ← arena.createObject
  return (object, ← Filling.inOrder fillings object arena)

def array (fillings : List Filling) : Building := fun arena => do
  let (array, arena) ← arena.createArray
  return (array, ← Filling.inOrder fillings array arena)

end Building

/-- The roots held before are held as they were, the new root is held too, and if no allocation failed
it stands for the tree and nothing else is new. -/
structure Made (json : Json) (arena : Arena) (held : Held) (pointer : Pointer) (after : Arena) (next : Held) : Prop where
  accounted : Accounted after.heap next
  kept : ∀ root, held root ≠ none → next root = held root
  new : ∀ root ∈ pointer, held root = none ∧ next root ≠ none
  granted : arena.Granted → after.Granted ∧ ∃ root, pointer = some root ∧ next = Function.update held root (some json)

def Builds (json : Json) (building : Building) : Prop :=
  ∀ arena held, Accounted arena.heap held →
    ∃ pointer after next, building arena = .ok (pointer, after) ∧ Made json arena held pointer after next

/-- The container, where there is one, takes items under some keys before and after, the other roots are
held as they were, and if no allocation failed the container has grown and nothing else is new. -/
structure Filled (takes : Json → Prop) (grow : Json → Json) (arena : Arena) (held : Held) (container : Pointer) (after : Arena)
    (next : Held) : Prop where
  accounted : Accounted after.heap next
  kept : ∀ root, root ∉ container → held root ≠ none → next root = held root
  takes : ∀ root ∈ container, ∃ outer, next root = some outer ∧ takes outer
  granted : arena.Granted → ∀ root ∈ container, ∀ outer, held root = some outer →
    after.Granted ∧ next = Function.update held root (some (grow outer))

def Fills (takes : Json → Prop) (grow : Json → Json) (filling : Filling) : Prop :=
  ∀ arena held container, Accounted arena.heap held → (∀ root ∈ container, ∃ outer, held root = some outer ∧ takes outer) →
    ∃ after next, filling container arena = .ok after ∧ Filled takes grow arena held container after next

def IsObject (json : Json) : Prop := ∃ members, json = .object members

def IsArray (json : Json) : Prop := ∃ items, json = .array items

theorem IsObject.adopts {outer : Json} (isObject : IsObject outer) (name : Bytes) (json : Json) :
    Adopts (some name) json outer (adopt (some name) json outer) ∧ IsObject (adopt (some name) json outer) := by
  obtain ⟨members, rfl⟩ := isObject
  exact ⟨.object name json members, _, rfl⟩

theorem IsArray.adopts {outer : Json} (isArray : IsArray outer) (json : Json) :
    Adopts none json outer (adopt none json outer) ∧ IsArray (adopt none json outer) := by
  obtain ⟨items, rfl⟩ := isArray
  exact ⟨.array json items, _, rfl⟩

theorem grown_of_found {held : Held} {container : Nat} {outer : Json} (found : held container = some outer)
    (key : Option Bytes) (json : Json) :
    grown held (some container) key json = Function.update held container (some (adopt key json outer)) := by
  simp [grown, found]

theorem attached_of_found {held : Held} {container item : Nat} {outer json : Json} (found : held container = some outer)
    (foundItem : held item = some json) (key : Option Bytes) : attached held (some container) key (some item) =
      Function.update (Function.update held item none) container (some (adopt key json outer)) := by
  simp [attached, found, foundItem]

theorem fills_created {json : Json} (name : Bytes) (create : Building)
    (spec : ∀ {arena : Arena} {held : Held}, Accounted arena.heap held →
      ∃ pointer after, create arena = .ok (pointer, after) ∧ Accounted after.heap (hold pointer json held) ∧
        (∀ root ∈ pointer, held root = none) ∧ (arena.Granted → pointer ≠ none ∧ after.Granted)) :
    Fills IsObject (adopt (some name) json) fun object arena => do
      return (← Arena.addCreated (create arena) object name).2 := by
  intro arena held container accounted takes
  obtain ⟨item, made, created, holds, absent, further⟩ := spec accounted
  have allowed : Attachable held container (some name) none := by
    refine ⟨fun root member => ?_, fun root none => by cases none⟩
    obtain ⟨outer, found, isObject⟩ := takes root member
    exact ⟨outer, found, fun json => (isObject.adopts name json).1⟩
  obtain ⟨pointer, after, called, next, more⟩ := Arena.addCreated_accounted name holds absent allowed
  refine ⟨after, _, by simp only [created, called]; rfl, next, ?_, ?_, ?_⟩
  · intro root outside _
    split_ifs
    · cases container with
      | none => rfl
      | some object =>
        obtain ⟨outer, found, -⟩ := takes object rfl
        have apart : root ≠ object := fun same => outside (same ▸ rfl)
        rw [grown_of_found found, Function.update_of_ne apart]
    · rfl
  · rintro object ⟨⟩
    obtain ⟨outer, found, isObject⟩ := takes object rfl
    split_ifs
    · rw [grown_of_found found]
      exact ⟨_, Function.update_self .., (isObject.adopts name json).2⟩
    · exact ⟨outer, found, isObject⟩
  · rintro all object ⟨⟩ outer found
    obtain ⟨there, granted⟩ := further all
    obtain ⟨some, grantedAfter⟩ := more granted there (Option.some_ne_none object)
    obtain ⟨root, rfl⟩ := Option.ne_none_iff_exists'.mp some
    exact ⟨grantedAfter, by rw [Option.isSome_some, if_pos rfl, grown_of_found found]⟩

theorem fills_attached {takes : Json → Prop} {key : Option Bytes} {json : Json} {building : Building}
    (builds : Builds json building) (add : Arena → Pointer → Pointer → Except Fault (Bool × Arena))
    (adopts : ∀ outer, takes outer → ∀ json, Adopts key json outer (adopt key json outer) ∧ takes (adopt key json outer))
    (spec : ∀ {arena : Arena} {held : Held} {container item : Pointer}, Accounted arena.heap held →
      Attachable held container key item → ∃ added after, add arena container item = .ok (added, after) ∧
        Accounted after.heap (if added then attached held container key item else held) ∧
        (arena.Granted → after.Granted ∧ (container ≠ none → item ≠ none → container ≠ item → added = true))) :
    Fills takes (adopt key json) fun container arena => do
      let (item, arena) ← building arena
      return (← add arena container item).2 := by
  intro arena held container accounted holds
  obtain ⟨item, second, middle, built, made⟩ := builds arena held accounted
  have apart {root other : Nat} (there : held root ≠ none) (isNew : item = some other) : root ≠ other := by
    rintro rfl
    exact there (made.new root isNew).1
  have still {root : Nat} {outer : Json} (found : held root = some outer) : middle root = some outer := by
    rw [made.kept root (by simp [found]), found]
  have allowed : Attachable middle container key item := by
    refine ⟨fun root member => ?_, fun root member => (made.new root member).2⟩
    obtain ⟨outer, found, fits⟩ := holds root member
    exact ⟨outer, still found, fun json => (adopts outer fits json).1⟩
  obtain ⟨added, after, called, next, further⟩ := spec made.accounted allowed
  refine ⟨after, _, by simp only [built, ok_bind, called]; rfl, next, ?_, ?_, ?_⟩
  · intro root outside there
    split_ifs
    · cases container with
      | none => exact made.kept root there
      | some container =>
        cases item with
        | none => exact made.kept root there
        | some item =>
          obtain ⟨outer, found, -⟩ := holds container rfl
          obtain ⟨tree, foundItem⟩ := Option.ne_none_iff_exists'.mp (made.new item rfl).2
          have notContainer : root ≠ container := fun same => outside (same ▸ rfl)
          rw [attached_of_found (still found) foundItem, Function.update_of_ne notContainer,
            Function.update_of_ne (apart there rfl), made.kept root there]
    · exact made.kept root there
  · rintro container ⟨⟩
    obtain ⟨outer, found, fits⟩ := holds container rfl
    split_ifs
    · cases item with
      | none => exact ⟨outer, still found, fits⟩
      | some item =>
        obtain ⟨tree, foundItem⟩ := Option.ne_none_iff_exists'.mp (made.new item rfl).2
        rw [attached_of_found (still found) foundItem]
        exact ⟨_, Function.update_self .., (adopts outer fits tree).2⟩
    · exact ⟨outer, still found, fits⟩
  · rintro all container ⟨⟩ outer found
    obtain ⟨grantedMiddle, root, rfl, rfl⟩ := made.granted all
    obtain ⟨grantedAfter, adds⟩ := further grantedMiddle
    have there : held container ≠ none := by simp [found]
    have isAdded := adds (Option.some_ne_none _) (Option.some_ne_none _) fun same =>
      apart there rfl (Option.some.inj same)
    refine ⟨grantedAfter, ?_⟩
    rw [if_pos isAdded, attached_of_found (still found) (Function.update_self ..), Function.update_idem,
      update_none_of_absent (made.new root rfl).1]

theorem fills_number (name : Bytes) (n : Rat) :
    Fills IsObject (adopt (some name) (.number (saturated n))) (Filling.number name n) :=
  fills_created name (Building.number n) fun accounted => Arena.createNumber_accounted accounted n

theorem fills_string (name string : Bytes) : Fills IsObject (adopt (some name) (.string string)) (Filling.string name string) :=
  fills_created name (fun arena => arena.createString string) fun accounted => Arena.createString_accounted accounted string

theorem fills_item {json : Json} {building : Building} (name : Bytes) (builds : Builds json building) :
    Fills IsObject (adopt (some name) json) (Filling.item name building) :=
  fills_attached builds (fun arena object item => arena.addItemToObject object name item)
    (fun _ isObject json => isObject.adopts name json) fun accounted allowed =>
      Arena.addItemToObject_accounted accounted name allowed

theorem fills_element {json : Json} {building : Building} (builds : Builds json building) :
    Fills IsArray (adopt none json) (Filling.element building) := by
  refine fills_attached builds Arena.addItemToArray (fun _ isArray json => isArray.adopts json) fun accounted allowed => ?_
  obtain ⟨added, after, called, next, answers, adds⟩ := Arena.addItemToArray_accounted accounted allowed
  refine ⟨added, after, called, next, fun all => ⟨?_, adds⟩⟩
  rw [Arena.Granted, answers]
  exact all

theorem fills_inOrder {takes : Json → Prop} {Source : Type} {grow : Source → Json → Json} {filling : Source → Filling}
    (sources : List Source) (fills : ∀ source ∈ sources, Fills takes (grow source) (filling source)) :
    Fills takes (fun outer => sources.foldl (fun outer source => grow source outer) outer)
      (Filling.inOrder (sources.map filling)) := by
  intro arena held container accounted holds
  induction sources generalizing arena held with
  | nil =>
    refine ⟨arena, held, rfl, accounted, fun _ _ _ => rfl, holds, fun all root member outer found => ⟨all, ?_⟩⟩
    rw [List.foldl_nil, ← found, Function.update_eq_self]
  | cons source rest ih =>
    rw [List.forall_mem_cons] at fills
    obtain ⟨middle, between, filled, first⟩ := fills.1 arena held container accounted holds
    obtain ⟨after, next, filledRest, later⟩ := ih fills.2 middle between first.accounted first.takes
    refine ⟨after, next, ?_, later.accounted, fun root outside there => ?_, later.takes, fun all root member outer found => ?_⟩
    · rw [Filling.inOrder, List.map_cons, List.foldlM_cons, filled]
      exact filledRest
    · have kept := first.kept root outside there
      rw [later.kept root outside (by rwa [kept]), kept]
    · obtain ⟨granted, rfl⟩ := first.granted all root member outer found
      obtain ⟨grantedAfter, rfl⟩ := later.granted granted root member _ (Function.update_self ..)
      rw [Function.update_idem]
      exact ⟨grantedAfter, rfl⟩

theorem Made.of_created {json : Json} {arena after : Arena} {held : Held} {pointer : Pointer}
    (next : Accounted after.heap (hold pointer json held)) (absent : ∀ root ∈ pointer, held root = none)
    (further : arena.Granted → pointer ≠ none ∧ after.Granted) :
    Made json arena held pointer after (hold pointer json held) := by
  refine ⟨next, fun root there => ?_, ?_, fun all => ?_⟩
  · cases pointer with
    | none => rfl
    | some new =>
      have apart : root ≠ new := by
        rintro rfl
        exact there (absent root rfl)
      exact Function.update_of_ne apart ..
  · rintro root ⟨⟩
    exact ⟨absent root rfl, by simp [hold]⟩
  · obtain ⟨there, granted⟩ := further all
    obtain ⟨root, rfl⟩ := Option.ne_none_iff_exists'.mp there
    exact ⟨granted, root, rfl, rfl⟩

theorem builds_number (n : Rat) : Builds (.number (saturated n)) (Building.number n) := by
  intro arena held accounted
  obtain ⟨pointer, after, created, next, absent, further⟩ := Arena.createNumber_accounted accounted n
  exact ⟨pointer, after, _, created, .of_created next absent further⟩

theorem builds_container {takes : Json → Prop} {empty : Json} {grow : Json → Json} {create : Building} {filling : Filling}
    (fits : takes empty)
    (spec : ∀ {arena : Arena} {held : Held}, Accounted arena.heap held →
      ∃ pointer after, create arena = .ok (pointer, after) ∧ Accounted after.heap (hold pointer empty held) ∧
        (∀ root ∈ pointer, held root = none) ∧ (arena.Granted → pointer ≠ none ∧ after.Granted))
    (fills : Fills takes grow filling) :
    Builds (grow empty) fun arena => do
      let (container, arena) ← create arena
      return (container, ← filling container arena) := by
  intro arena held accounted
  obtain ⟨container, middle, created, next, absent, further⟩ := spec accounted
  have made := Made.of_created next absent further
  have holds : ∀ root ∈ container, ∃ outer, hold container empty held root = some outer ∧ takes outer := by
    rintro root ⟨⟩
    exact ⟨empty, Function.update_self .., fits⟩
  obtain ⟨after, last, filled, rest⟩ := fills middle _ container next holds
  refine ⟨container, after, last, ?_, rest.accounted, fun root there => ?_, fun root isNew => ?_, fun all => ?_⟩
  · simp only [created, ok_bind, filled]
    rfl
  · have outside : root ∉ container := fun isNew => there (absent root isNew)
    have kept := made.kept root there
    rw [rest.kept root outside (by rwa [kept]), kept]
  · obtain ⟨outer, found, -⟩ := rest.takes root isNew
    exact ⟨absent root isNew, by simp [found]⟩
  · obtain ⟨granted, root, rfl, -⟩ := made.granted all
    obtain ⟨grantedAfter, rfl⟩ := rest.granted granted root rfl empty (Function.update_self ..)
    exact ⟨grantedAfter, root, rfl, by rw [hold, Function.update_idem]⟩

theorem builds_object {Source : Type} (member : Source → Bytes × Json) (filling : Source → Filling) (sources : List Source)
    (fills : ∀ source ∈ sources, Fills IsObject (adopt (some (member source).1) (member source).2) (filling source)) :
    Builds (.object (sources.map member)) (Building.object (sources.map filling)) := by
  have grows (before : List (Bytes × Json)) :
      sources.foldl (fun outer source => adopt (some (member source).1) (member source).2 outer) (.object before) =
        .object (before ++ sources.map member) := by
    induction sources generalizing before with
    | nil => simp
    | cons source rest ih =>
      rw [List.foldl_cons, adopt, ih (List.forall_mem_cons.mp fills).2, List.append_assoc]
      rfl
  have built := builds_container ⟨[], rfl⟩ Arena.createObject_accounted (fills_inOrder sources fills)
  rw [grows, List.nil_append] at built
  exact built

theorem builds_members {members : List (Bytes × Json)} {fillings : List Filling} (same : members.length = fillings.length)
    (fills : ∀ pair ∈ members.zip fillings, Fills IsObject (adopt (some pair.1.1) pair.1.2) pair.2) :
    Builds (.object members) (.object fillings) := by
  have built := builds_object Prod.fst Prod.snd (members.zip fillings) fills
  rwa [List.map_fst_zip (Nat.le_of_eq same), List.map_snd_zip (Nat.le_of_eq same.symm)] at built

theorem builds_array {Source : Type} {item : Source → Json} {building : Source → Building} (sources : List Source)
    (builds : ∀ source ∈ sources, Builds (item source) (building source)) :
    Builds (.array (sources.map item)) (Building.array (sources.map fun source => Filling.element (building source))) := by
  have grows (before : List Json) : sources.foldl (fun outer source => adopt none (item source) outer) (.array before) =
      .array (before ++ sources.map item) := by
    induction sources generalizing before with
    | nil => simp
    | cons source rest ih =>
      rw [List.foldl_cons, adopt, ih (List.forall_mem_cons.mp builds).2, List.append_assoc]
      rfl
  have built := builds_container ⟨[], rfl⟩ Arena.createArray_accounted
    (fills_inOrder sources fun source listed => fills_element (builds source listed))
  rw [grows, List.nil_append] at built
  exact built

end Trigger.CJson
