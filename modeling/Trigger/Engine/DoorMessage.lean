import Trigger.Engine.DoorLift
import Trigger.Foundation.Scanning

/-! Messages of the broker: which bytes of memory open which door.

A payload comes without a terminator, and the numbers are read from the string that
starts with it, into variables without a value of their own.
-/

set_option autoImplicit false

namespace Trigger.Engine
open Foundation Config

/-! ## msgarrvd -/

/-- `engine_msg_t`. -/
inductive EngineMsg where
  | unknown
  | door
  | box
  deriving DecidableEq, Repr

def topicRegistry : List (Bytes × EngineMsg) :=
  [(text "door", .door), (text "box", .box), (text "unknow", .unknown)]

def getMsgId (topicName : Bytes) : EngineMsg :=
  match topicRegistry.find? fun entry => entry.1 = topicName with
  | some entry => entry.2
  | none => .unknown

/-- A message as the library hands it over: the bytes of the payload, and the memory
that lies behind them. -/
structure Message where
  payload : Bytes
  following : Bytes

def Message.string (message : Message) : Except Fault Bytes :=
  if 0 ∈ message.payload ++ message.following then .ok (cString (message.payload ++ message.following))
  else .error .outOfBounds

/-- `sscanf(source, "%d %d", &door_n, &state)`, with its result ignored: a variable without
a number keeps its value. -/
def scanDoor (source : Bytes) (locals : Int × Int) : Except Fault (Int × Int) :=
  match scanInt source with
  | none => .ok locals
  | some (n, rest) => do
    let doorN ← storeInt n
    match scanInt (rest.dropWhile isspace) with
    | none => return (doorN, locals.2)
    | some (s, _) => return (doorN, ← storeInt s)

variable {K : Type}

/-- `locals` are the values `door_n` and `state` happen to have. -/
def msgarrvd (manager : EntityManager K) (topicName : Bytes) (message : Message) (locals : Int × Int) :
    Except Fault (EntityManager K) :=
  match getMsgId topicName with
  | .door => do
    let source ← message.string
    let (doorN, state) ← scanDoor source locals
    return openDoor manager doorN state
  | .box => do
    -- The payload is printed.
    let _ ← message.string
    return manager
  | .unknown => .ok manager

/-! ## The property -/

def space : UInt8 := 32

/-- The payload is two numbers of type `int` with a space between them. -/
def DoorPayload (payload : Bytes) (n s : Int) : Prop :=
  ∃ first second, payload = first ++ space :: second ∧ Numeral first n ∧ Numeral second s ∧ FitsInt n ∧ FitsInt s

/-- The message sets the doors its payload names, and none when it names none. -/
def DecodesPayload (manager : EntityManager K) (message : Message) (locals : Int × Int) : Prop :=
  ∃ next, msgarrvd manager (text "door") message locals = .ok next ∧
    (∀ n s, DoorPayload message.payload n s → next = manager.answer n s) ∧
    ((∀ n s, ¬ DoorPayload message.payload n s) → next = manager)

/-! ## The condition -/

/-- The numbers a string begins with, the second one read behind the first; a missing
one is the value of its variable. -/
inductive Spells (source : Bytes) (locals : Int × Int) : Int → Int → Prop where
  | neither : (∀ n rest, ¬ Leads source n rest) → Spells source locals locals.1 locals.2
  | first {n : Int} {rest : Bytes} : Leads source n rest → (∀ s after, ¬ Leads rest s after) →
      Spells source locals n locals.2
  | both {n s : Int} {rest after : Bytes} : Leads source n rest → Leads rest s after → Spells source locals n s

/-- The numbers the string begins with are of type `int`. -/
def SpellsInts (source : Bytes) : Prop :=
  ∀ n rest, Leads source n rest → FitsInt n ∧ ∀ s after, Leads rest s after → FitsInt s

def NoDoor (manager : EntityManager K) (n : Int) : Prop :=
  ∀ index door, manager.doorAt index = some door → door.id ≠ n

def InState (manager : EntityManager K) (n s : Int) : Prop :=
  ∀ index door, manager.doorAt index = some door → door.id = n → door.isOpen = s

def Message.digitsBehind (message : Message) : Bytes := (cString message.following).takeWhile isdigit

/-- What lies behind a complete payload does not change its second number, or there is no
door that could tell. -/
def EndsWithPayload (manager : EntityManager K) (message : Message) (n s : Int) : Prop :=
  0 ∈ message.following ∧
    ((message.digitsBehind = [] ∨ s = 0 ∧ decimal message.digitsBehind = 0) ∨
      NoDoor manager n ∧ SpellsInts (cString (message.payload ++ message.following)))

/-- The numbers that are read in place of a payload name no door in another state. -/
def ReadsHarmless (manager : EntityManager K) (message : Message) (locals : Int × Int) : Prop :=
  0 ∈ message.payload ++ message.following ∧ SpellsInts (cString (message.payload ++ message.following)) ∧
    ∀ n s, Spells (cString (message.payload ++ message.following)) locals n s → InState manager n s

def ReadsPayload (manager : EntityManager K) (message : Message) (locals : Int × Int) : Prop :=
  (∀ n s, DoorPayload message.payload n s → EndsWithPayload manager message n s) ∧
    ((∀ n s, ¬ DoorPayload message.payload n s) → ReadsHarmless manager message locals)

theorem storeInt_ok_iff {value stored : Int} : storeInt value = .ok stored ↔ FitsInt value ∧ stored = value := by
  unfold storeInt
  split
  · rename_i fits
    simp [fits, eq_comm]
  · rename_i large
    simp [large]

section
variable {source rest : Bytes} {locals : Int × Int} {first n s : Int}

theorem spells_of_none (nothing : ∀ n rest, ¬ Leads source n rest) : Spells source locals n s ↔ locals = (n, s) := by
  constructor
  · intro spells
    cases spells with
    | neither _ => rfl
    | first leads => exact absurd leads (nothing _ _)
    | both leads => exact absurd leads (nothing _ _)
  · rintro rfl
    exact .neither nothing

theorem spells_of_first (leads : Leads source first rest) (nothing : ∀ s after, ¬ Leads rest s after) :
    Spells source locals n s ↔ first = n ∧ locals.2 = s := by
  constructor
  · intro spells
    cases spells with
    | neither none => exact absurd leads (none _ _)
    | first other _ => exact ⟨(other.unique leads).1.symm, rfl⟩
    | both other second =>
      obtain ⟨rfl, rfl⟩ := other.unique leads
      exact absurd second (nothing _ _)
  · rintro ⟨rfl, rfl⟩
    exact .first leads nothing

theorem spells_of_both {second : Int} {after : Bytes} (leads : Leads source first rest)
    (follows : Leads rest second after) : Spells source locals n s ↔ first = n ∧ second = s := by
  constructor
  · intro spells
    cases spells with
    | neither none => exact absurd leads (none _ _)
    | first other none =>
      obtain ⟨rfl, rfl⟩ := other.unique leads
      exact absurd follows (none _ _)
    | both other behind =>
      obtain ⟨rfl, rfl⟩ := other.unique leads
      exact ⟨rfl, (follows.unique behind).1⟩
  · rintro ⟨rfl, rfl⟩
    exact .both leads follows

theorem spellsInts_of_none (nothing : ∀ n rest, ¬ Leads source n rest) : SpellsInts source :=
  fun n rest leads => absurd leads (nothing n rest)

theorem spellsInts_iff (leads : Leads source first rest) :
    SpellsInts source ↔ FitsInt first ∧ ∀ s after, Leads rest s after → FitsInt s := by
  refine ⟨fun ints => ints first rest leads, fun fits n after other => ?_⟩
  obtain ⟨rfl, rfl⟩ := other.unique leads
  exact fits

theorem spellsInts_of_both {second : Int} {after : Bytes} (leads : Leads source first rest)
    (follows : Leads rest second after) : SpellsInts source ↔ FitsInt first ∧ FitsInt second := by
  refine (spellsInts_iff leads).trans (and_congr_right fun _ => ⟨fun fits => fits second after follows, ?_⟩)
  intro fits s behind other
  exact (other.unique follows).1 ▸ fits

theorem scanDoor_ok_iff :
    scanDoor source locals = .ok (n, s) ↔ SpellsInts source ∧ Spells source locals n s := by
  unfold scanDoor
  cases found : scanInt source with
  | none =>
    have nothing := scanInt_eq_none_iff.mp found
    rw [spells_of_none nothing, and_iff_right (spellsInts_of_none nothing), Except.ok.injEq]
  | some numbers =>
    obtain ⟨first, rest⟩ := numbers
    have leads := scanInt_eq_some_iff.mp found
    simp only [scanInt_skip, bind_ok_iff, storeInt_ok_iff]
    cases foundSecond : scanInt rest with
    | none =>
      have nothing := scanInt_eq_none_iff.mp foundSecond
      have second : ∀ s after, Leads rest s after → FitsInt s := fun s after other => absurd other (nothing s after)
      rw [spells_of_first leads nothing, spellsInts_iff leads, and_iff_left second]
      simp [pure, Except.pure]
    | some numbers =>
      obtain ⟨second, last⟩ := numbers
      have follows := scanInt_eq_some_iff.mp foundSecond
      rw [spells_of_both leads follows, spellsInts_of_both leads follows]
      simp only [bind_ok_iff, storeInt_ok_iff]
      simp [pure, Except.pure, and_assoc]

end

theorem string_ok_iff {message : Message} {source : Bytes} : message.string = .ok source ↔
    0 ∈ message.payload ++ message.following ∧ source = cString (message.payload ++ message.following) := by
  unfold Message.string
  split
  · rename_i terminated
    simp [terminated, eq_comm]
  · rename_i endless
    simp [endless]

theorem msgarrvd_ok_iff {manager next : EntityManager K} {message : Message} {locals : Int × Int} :
    msgarrvd manager (text "door") message locals = .ok next ↔
      0 ∈ message.payload ++ message.following ∧ SpellsInts (cString (message.payload ++ message.following)) ∧
        ∃ n s, Spells (cString (message.payload ++ message.following)) locals n s ∧ next = openDoor manager n s := by
  have isDoor : getMsgId (text "door") = .door := by decide
  unfold msgarrvd
  rw [isDoor]
  simp only [bind_ok_iff, string_ok_iff]
  constructor
  · rintro ⟨_, ⟨terminated, rfl⟩, ⟨n, s⟩, scanned, same⟩
    cases same
    obtain ⟨ints, spells⟩ := scanDoor_ok_iff.mp scanned
    exact ⟨terminated, ints, n, s, spells, rfl⟩
  · rintro ⟨terminated, ints, n, s, spells, rfl⟩
    exact ⟨_, ⟨terminated, rfl⟩, (n, s), scanDoor_ok_iff.mpr ⟨ints, spells⟩, rfl⟩

theorem spells_total (source : Bytes) (locals : Int × Int) : ∃ n s, Spells source locals n s := by
  cases found : scanInt source with
  | none => exact ⟨_, _, .neither (scanInt_eq_none_iff.mp found)⟩
  | some numbers =>
    have leads := scanInt_eq_some_iff.mp found
    cases foundSecond : scanInt numbers.2 with
    | none => exact ⟨_, _, .first leads (scanInt_eq_none_iff.mp foundSecond)⟩
    | some second => exact ⟨_, _, .both leads (scanInt_eq_some_iff.mp foundSecond)⟩

theorem spellsInts_of_leads {source rest after : Bytes} {n s : Int} (leads : Leads source n rest)
    (follows : Leads rest s after) (first : FitsInt n) (second : FitsInt s) : SpellsInts source := by
  intro n' rest' other
  obtain ⟨rfl, rfl⟩ := other.unique leads
  exact ⟨first, fun s' after' other => (other.unique follows).1 ▸ second⟩

/-! ## What the doors tell -/

theorem answer_eq_self_iff {manager : EntityManager K} {n s : Int} :
    manager.answer n s = manager ↔ InState manager n s := by
  constructor
  · intro same index door found named
    have answered := answer_doorAt manager n s index
    rw [same, found, Option.map_some, Door.answer, if_pos named] at answered
    exact congrArg Door.isOpen (Option.some.inj answered)
  · intro inState
    have each : ∀ entity ∈ manager.entities, entity.answer n s = entity := by
      intro entity member
      obtain ⟨index, found⟩ := List.mem_iff_getElem?.mp member
      obtain ⟨data, active⟩ := entity
      cases data with
      | player self => rfl
      | door door =>
        have state := inState index door (doorAt_eq_some_iff.mpr ⟨active, found⟩)
        by_cases named : door.id = n
        · subst named
          simp [Entity.answer, Door.answer, ← state rfl]
        · simp [Entity.answer, Door.answer, named]
    rw [EntityManager.answer, List.map_congr_left each, List.map_id']

theorem answer_eq_answer_iff {manager : EntityManager K} {n s t : Int} :
    manager.answer n s = manager.answer n t ↔ s = t ∨ NoDoor manager n := by
  constructor
  · intro same
    by_contra differ
    rw [not_or, NoDoor] at differ
    push Not at differ
    obtain ⟨apart, index, door, found, named⟩ := differ
    have answered := answer_doorAt manager n s index
    rw [same, answer_doorAt, found, Option.map_some, Option.map_some, Door.answer, Door.answer, if_pos named,
      if_pos named] at answered
    exact apart (congrArg Door.isOpen (Option.some.inj answered)).symm
  · rintro (rfl | none)
    · rfl
    · have unchanged (state : Int) : manager.answer n state = manager :=
        answer_eq_self_iff.mpr fun index door found named => absurd named (none index door found)
      rw [unchanged, unchanged]

theorem DoorPayload.no_nul {payload : Bytes} {n s : Int} (complete : DoorPayload payload n s) : 0 ∉ payload := by
  obtain ⟨first, second, rfl, numeral, numeralSecond, -⟩ := complete
  simp [numeral.no_nul, numeralSecond.no_nul, space]

/-- Behind a complete payload the second number goes on through the digits that follow. -/
theorem DoorPayload.leads {message : Message} {n s : Int} (complete : DoorPayload message.payload n s) :
    ∃ longer rest after, Leads (cString (message.payload ++ message.following)) n rest ∧ Leads rest longer after ∧
      (longer = s ↔ message.digitsBehind = [] ∨ s = 0 ∧ decimal message.digitsBehind = 0) := by
  have noNul := complete.no_nul
  obtain ⟨first, second, whole, numeral, numeralSecond, -⟩ := complete
  have digits : ∀ byte ∈ message.digitsBehind, isdigit byte := fun byte member => List.mem_takeWhile_imp member
  obtain ⟨longer, extended, same⟩ := numeralSecond.extend digits
  have parts : message.digitsBehind ++ (cString message.following).dropWhile isdigit = cString message.following :=
    List.takeWhile_append_dropWhile
  refine ⟨longer, space :: (second ++ cString message.following), (cString message.following).dropWhile isdigit,
    ⟨[], first, ?_, by simp, numeral, by simp [space, isdigit]⟩,
    ⟨[space], second ++ message.digitsBehind, ?_, by simp [space, isspace], extended, dropWhile_head _⟩, same⟩
  · rw [cString_append noNul, whole]
    simp
  · rw [List.append_assoc, parts]
    rfl

section
variable {manager : EntityManager K} {message : Message} {locals : Int × Int} {n s : Int}

theorem complete_decodes_iff (distinct : DistinctDoors manager) (complete : DoorPayload message.payload n s) :
    msgarrvd manager (text "door") message locals = .ok (manager.answer n s) ↔
      EndsWithPayload manager message n s := by
  obtain ⟨longer, rest, after, leads, follows, same⟩ := complete.leads
  have terminated : 0 ∈ message.payload ++ message.following ↔ 0 ∈ message.following := by
    simp [complete.no_nul]
  rw [EndsWithPayload, ← same, ← terminated, msgarrvd_ok_iff]
  constructor
  · rintro ⟨zero, ints, n', s', spells, answered⟩
    refine ⟨zero, ?_⟩
    have read : msgarrvd manager (text "door") message locals = .ok (openDoor manager n longer) :=
      msgarrvd_ok_iff.mpr ⟨zero, ints, n, longer, .both leads follows, rfl⟩
    have other : msgarrvd manager (text "door") message locals = .ok (manager.answer n s) :=
      msgarrvd_ok_iff.mpr ⟨zero, ints, n', s', spells, answered⟩
    have equal : manager.answer n longer = manager.answer n s := by
      rw [← openDoor_eq_answer distinct]
      exact Except.ok.inj (read.symm.trans other)
    exact (answer_eq_answer_iff.mp equal).imp_right fun none => ⟨none, ints⟩
  · rintro ⟨zero, same | ⟨none, ints⟩⟩
    · obtain ⟨-, -, -, -, -, first, second⟩ := complete
      refine ⟨zero, spellsInts_of_leads leads follows first (same ▸ second), n, longer, .both leads follows, ?_⟩
      rw [openDoor_eq_answer distinct, same]
    · refine ⟨zero, ints, n, longer, .both leads follows, ?_⟩
      rw [openDoor_eq_answer distinct]
      exact answer_eq_answer_iff.mpr (.inr none)

theorem harmless_iff (distinct : DistinctDoors manager) :
    msgarrvd manager (text "door") message locals = .ok manager ↔ ReadsHarmless manager message locals := by
  rw [msgarrvd_ok_iff]
  constructor
  · rintro ⟨zero, ints, n, s, spells, unchanged⟩
    refine ⟨zero, ints, fun n' s' other => answer_eq_self_iff.mp ?_⟩
    have read : msgarrvd manager (text "door") message locals = .ok (openDoor manager n s) :=
      msgarrvd_ok_iff.mpr ⟨zero, ints, n, s, spells, rfl⟩
    have also : msgarrvd manager (text "door") message locals = .ok (openDoor manager n' s') :=
      msgarrvd_ok_iff.mpr ⟨zero, ints, n', s', other, rfl⟩
    rw [← openDoor_eq_answer distinct, ← Except.ok.inj (read.symm.trans also)]
    exact unchanged.symm
  · rintro ⟨zero, ints, harmless⟩
    obtain ⟨n, s, spells⟩ := spells_total (cString (message.payload ++ message.following)) locals
    refine ⟨zero, ints, n, s, spells, ?_⟩
    rw [openDoor_eq_answer distinct]
    exact (answer_eq_self_iff.mpr (harmless n s spells)).symm

end

theorem decodesPayload_iff {manager : EntityManager K} (distinct : DistinctDoors manager) {message : Message}
    {locals : Int × Int} : DecodesPayload manager message locals ↔ ReadsPayload manager message locals := by
  constructor
  · rintro ⟨next, taken, complete, incomplete⟩
    constructor
    · intro n s names
      rw [complete n s names] at taken
      exact (complete_decodes_iff distinct names).mp taken
    · intro nothing
      rw [incomplete nothing] at taken
      exact (harmless_iff distinct).mp taken
  · rintro ⟨complete, incomplete⟩
    have read (n s : Int) (named : DoorPayload message.payload n s) :
        msgarrvd manager (text "door") message locals = .ok (manager.answer n s) :=
      (complete_decodes_iff distinct named).mpr (complete n s named)
    by_cases names : ∃ n s, DoorPayload message.payload n s
    · obtain ⟨n, s, named⟩ := names
      exact ⟨manager.answer n s, read n s named,
        fun n' s' other => Except.ok.inj ((read n s named).symm.trans (read n' s' other)),
        fun nothing => absurd named (nothing n s)⟩
    · push Not at names
      have taken := (harmless_iff distinct).mpr (incomplete names)
      exact ⟨manager, taken, fun n s named => absurd named (names n s), fun _ => rfl⟩

theorem updateEntity_doorIds [Scalar K] {keys : MoveKeys} {world next : World K} {index : Nat}
    (taken : updateEntity keys world index = .ok next) (other : Nat) :
    (next.manager.doorAt other).map Door.id = (world.manager.doorAt other).map Door.id := by
  cases entityUpdated_of_ok taken with
  | player found => rw [doorAt_setData_player _ found]
  | @door self player found read =>
    rw [doorAt_updateDoor found read]
    split
    · rename_i same
      subst same
      rw [updateDoor_fst, doorAt_eq_some_iff.mpr ⟨true, found⟩, Option.map_some, Option.map_some, lift_id]
    · rfl
  | skipped _ => rfl

theorem DistinctDoors.of_ids {before after : EntityManager K} (distinct : DistinctDoors before)
    (same : ∀ index, (after.doorAt index).map Door.id = (before.doorAt index).map Door.id) : DistinctDoors after := by
  have earlier {index : Nat} {door : Door K} (found : after.doorAt index = some door) :
      ∃ start, before.doorAt index = some start ∧ start.id = door.id :=
    Option.map_eq_some_iff.mp ((same index).symm.trans (congrArg (Option.map Door.id) found))
  intro first second door other here there named
  obtain ⟨start, found, id⟩ := earlier here
  obtain ⟨start', found', id'⟩ := earlier there
  exact distinct first second start start' found found' (id.trans (named.trans id'.symm))

theorem worldStep_distinct [Scalar K] {world next : World K} {event : WorldEvent}
    (distinct : DistinctDoors world.manager) (taken : worldStep world event = .ok next) :
    DistinctDoors next.manager := by
  cases event with
  | tick keys =>
    exact foldlM_invariant (fun state : World K => DistinctDoors state.manager)
      (fun state index _ next distinct step => distinct.of_ids (updateEntity_doorIds step)) distinct taken
  | doorMessage doorId state =>
    cases taken
    rw [openDoor_eq_answer distinct]
    refine distinct.of_ids fun index => ?_
    rw [answer_doorAt, Option.map_map]
    exact congrArg (fun f => Option.map f _) (funext fun door => answer_id door doorId state)

/-- In every state of every loaded level a message on the door topic is decoded from its
payload exactly when what memory holds behind the payload, or in place of it, does not
matter. -/
theorem doorMessage_decodes_iff [Scalar K] {loads : Bytes → Bool} {file : Option Json} {loaded : LoadedMap K}
    (frame : Int) (events : List WorldEvent) {world : World K} (message : Message) (locals : Int × Int)
    (read : getMap loads file = .ok (some loaded))
    (reached : run worldStep (loaded.world frame) events = .ok world) :
    DecodesPayload world.manager message locals ↔ ReadsPayload world.manager message locals := by
  have initial : DistinctDoors (loaded.world frame).manager := (getMap_numbered read).2
  have distinct : DistinctDoors world.manager :=
    run_keeps (fun state => DistinctDoors state.manager) (fun _ _ _ distinct taken => worldStep_distinct distinct taken)
      initial reached
  exact decodesPayload_iff distinct

/-- The payload "0 1" before a byte that is no digit. -/
theorem endedMessage_decodes_iff :
    ∃ loaded : LoadedMap Rat, getMap (fun _ => true) (some (gridLevel [[0, 0], [1, 2], [4, 4]] 2)) =
        .ok (some loaded) ∧
      (DecodesPayload loaded.manager ⟨text "0 1", [0]⟩ (0, 0) ↔ ReadsPayload loaded.manager ⟨text "0 1", [0]⟩ (0, 0)) := by
  have checks : succeedsWith (fun answer : Option (LoadedMap Rat) => ∃ loaded ∈ answer, True)
      (getMap (fun _ => true) (some (gridLevel [[0, 0], [1, 2], [4, 4]] 2))) = true := by
    decide +kernel
  obtain ⟨answer, read, loaded, rfl, -⟩ := exists_ok_of_succeedsWith checks
  exact ⟨loaded, read, doorMessage_decodes_iff 0 [] ⟨text "0 1", [0]⟩ (0, 0) read rfl⟩

/-- The same payload where memory goes on with a digit: the door is set to 12. -/
theorem continuedMessage_not_decoded :
    ∃ loaded : LoadedMap Rat, getMap (fun _ => true) (some (gridLevel [[0, 0], [1, 2], [4, 4]] 2)) =
        .ok (some loaded) ∧ ¬ DecodesPayload loaded.manager ⟨text "0 1", text "2" ++ [0]⟩ (0, 0) := by
  have checks : succeedsWith (fun answer : Option (LoadedMap Rat) => ∃ loaded ∈ answer,
      succeedsWith (fun next => next ≠ loaded.manager.answer 0 1)
        (msgarrvd loaded.manager (text "door") ⟨text "0 1", text "2" ++ [0]⟩ (0, 0)) = true)
      (getMap (fun _ => true) (some (gridLevel [[0, 0], [1, 2], [4, 4]] 2))) = true := by
    decide +kernel
  obtain ⟨answer, read, loaded, rfl, differs⟩ := exists_ok_of_succeedsWith checks
  obtain ⟨next, taken, other⟩ := exists_ok_of_succeedsWith differs
  refine ⟨loaded, read, ?_⟩
  rintro ⟨decoded, taken', complete, -⟩
  cases taken.symm.trans taken'
  have zero : Numeral (text "0") 0 := .unsigned (by decide) (List.all_eq_true.mp (by decide))
  have one : Numeral (text "1") 1 := .unsigned (by decide) (List.all_eq_true.mp (by decide))
  exact other (complete 0 1 ⟨text "0", text "1", rfl, zero, one, by decide, by decide⟩)

end Trigger.Engine
