import Trigger.Engine.Playing
import Trigger.Network.Clients
import Mathlib.Data.List.Perm.Subperm

/-! The doors of the game, the clients and the broker between them.

Clients publish at any time, the broker delivers what it has accepted in any order and
loses what it likes, and the game goes on in between.
-/

set_option autoImplicit false

namespace Trigger.Network
open Foundation Config Terminal Engine

variable {K : Type}

/-- The game, and the messages the broker has for it. -/
structure Net (K : Type) where
  engine : EngineContext K
  inFlight : List Publication

/-- What happens in the system. A delivery names a message, and what its memory holds:
the bytes behind the payload, and the values the variables of the callback have. -/
inductive NetEvent (K : Type) where
  | client (argv : List Bytes) (connects : Bool)
  | clientCopy (connects : Bool) (seen : List FileStatus)
  | lose (index : Nat)
  | deliver (index : Nat) (following : Bytes) (locals : Int × Int)
  | frame (input : FrameInput K)
  | connectionFailed

/-- The topics of `onConnectSuccess`. -/
def subscriptions : List Bytes := (topicRegistry.filter fun entry => entry.2 ≠ .unknown).map Prod.fst

def deliver (engine : EngineContext K) (publication : Publication) (following : Bytes) (locals : Int × Int) :
    Except Fault (EngineContext K) :=
  if publication.topic ∈ subscriptions then do
    let message : Message := ⟨publication.payload, following⟩
    return { engine with
      entityManager := ← msgarrvd engine.entityManager publication.topic message locals }
  else .ok engine

def netStep [Scalar K] (net : Net K) : NetEvent K → Except Fault (Net K)
  | .client argv connects => do
    let (_, sent) ← clientMain argv connects
    return { net with inFlight := net.inFlight ++ sent }
  | .clientCopy connects seen => .ok { net with inFlight := net.inFlight ++ (clientCopyMain connects seen).2 }
  | .lose index => .ok { net with inFlight := net.inFlight.eraseIdx index }
  | .deliver index following locals =>
    match net.inFlight[index]? with
    | some publication => do
      let engine ← deliver net.engine publication following locals
      return ⟨engine, net.inFlight.eraseIdx index⟩
    | none => .ok net
  | .frame input => do
    let engine ← engineStep net.engine (.frame input)
    return { net with engine }
  | .connectionFailed => do
    let engine ← engineStep net.engine .connectionFailed
    return { net with engine }

def netInit [Scalar K] (menu : Menu) (width height : Int) : Net K := ⟨engineInit menu width height, []⟩

def seenBy (net : Net K) : NetEvent K → List (EngineEvent K)
  | .deliver index _ _ =>
    match net.inFlight[index]?.bind fun publication => payloadNumbers publication.payload with
    | some (n, s) => [.doorMessage n s]
    | none => []
  | .frame input => [.frame input]
  | .connectionFailed => [.connectionFailed]
  | .client _ _ => []
  | .clientCopy _ _ => []
  | .lose _ => []

def noteSeen (net : Net K) (event : NetEvent K) (seen : List (EngineEvent K)) : List (EngineEvent K) :=
  seen ++ seenBy net event

def engineLog [Scalar K] (net : Net K) (events : List (NetEvent K)) : List (EngineEvent K) :=
  recorded netStep noteSeen net [] events

def levelPlayed [Scalar K] (menu : Menu) (width height : Int) (events : List (NetEvent K)) : Option (Level K) :=
  levelAfter (engineInit menu width height) (engineLog (netInit menu width height) events)

def asked : NetEvent K → Option (Int × Int)
  | .client [_, number, status] true => askedNumbers (cString number) (cString status)
  | _ => none

def doorMessages (events : List (EngineEvent K)) : List (Int × Int) :=
  events.filterMap fun
    | .doorMessage n s => some (n, s)
    | _ => none

def levelMessages (events : List WorldEvent) : List (Int × Int) :=
  events.filterMap fun
    | .doorMessage n s => some (n, s)
    | _ => none

/-- Clients are given numbers, and behind a payload that is delivered memory goes on with
no digit. -/
def Orderly (_ : Net K) : NetEvent K → Prop
  | .client argv _ => WellUsed argv
  | .deliver _ following _ => 0 ∈ following ∧ Message.digitsBehind ⟨[], following⟩ = []
  | _ => True

/-- The message was sent by a client that was given two numbers. -/
def Complete (publication : Publication) : Prop :=
  ∃ payload n s, publication = doorPublication payload ∧ DoorPayload payload n s

def carried (inFlight : List Publication) : List (Int × Int) :=
  inFlight.filterMap fun publication => payloadNumbers publication.payload

/-- The engine is where its log leads, and no message is in the log and on its way more
often than it was asked for. -/
structure Carries [Scalar K] (start : EngineContext K) (events : List (NetEvent K)) (net : Net K)
    (log : List (EngineEvent K)) : Prop where
  engine : run engineStep start log = .ok net.engine
  complete : ∀ publication ∈ net.inFlight, Complete publication
  counted : (doorMessages log ++ carried net.inFlight).Subperm (events.filterMap asked)

theorem doorMessages_append (front back : List (EngineEvent K)) :
    doorMessages (front ++ back) = doorMessages front ++ doorMessages back := List.filterMap_append

theorem carried_eraseIdx (inFlight : List Publication) (index : Nat) :
    (carried (inFlight.eraseIdx index)).Sublist (carried inFlight) :=
  (List.eraseIdx_sublist inFlight index).filterMap _

theorem carried_perm {inFlight : List Publication} {index : Nat} {publication : Publication}
    (found : inFlight[index]? = some publication) {n s : Int}
    (numbers : payloadNumbers publication.payload = some (n, s)) :
    (carried inFlight).Perm ((n, s) :: carried (inFlight.eraseIdx index)) := by
  obtain ⟨inside, rfl⟩ := List.getElem?_eq_some_iff.mp found
  have parts : carried (inFlight[index] :: inFlight.eraseIdx index) = (n, s) :: carried (inFlight.eraseIdx index) :=
    List.filterMap_cons_some numbers
  exact parts ▸ ((List.getElem_cons_eraseIdx_perm inside).symm.filterMap _)

theorem door_subscribed : text "door" ∈ subscriptions := by decide

section
variable [Scalar K] {start : EngineContext K} {events : List (NetEvent K)} {net next : Net K}
variable {log : List (EngineEvent K)}

theorem Carries.client {argv : List Bytes} {connects : Bool} (carries : Carries start events net log)
    (wellUsed : WellUsed argv) (taken : netStep net (.client argv connects) = .ok next) :
    Carries start (events ++ [.client argv connects]) next log := by
  obtain ⟨⟨code, sent⟩, ran, same⟩ := bind_ok_iff.mp taken
  cases same
  rcases clientMain_sends wellUsed ran with
    rfl | ⟨name, number, status, payload, n, s, rfl, rfl, rfl, complete, asks⟩
  · refine ⟨carries.engine, by simpa using carries.complete, ?_⟩
    rw [List.append_nil, List.filterMap_append]
    exact carries.counted.trans (List.sublist_append_left _ _).subperm
  · refine ⟨carries.engine, ?_, ?_⟩
    · rw [List.forall_mem_append, List.forall_mem_singleton]
      exact ⟨carries.complete, payload, n, s, rfl, complete⟩
    · have sent : carried (net.inFlight ++ [doorPublication payload]) = carried net.inFlight ++ [(n, s)] := by
        rw [carried, List.filterMap_append, carried]
        exact congrArg _ (List.filterMap_cons_some (payloadNumbers_of_complete complete))
      have noted : (events ++ [NetEvent.client [name, number, status] true]).filterMap asked =
          events.filterMap asked ++ [(n, s)] := by
        rw [List.filterMap_append]
        exact congrArg _ (List.filterMap_cons_some asks)
      rw [sent, noted, ← List.append_assoc]
      exact (List.subperm_append_right _).mpr carries.counted

theorem deliver_complete {publication : Publication} {following : Bytes} {locals : Int × Int}
    {engine : EngineContext K} {payload : Bytes} {n s : Int} (sent : publication = doorPublication payload)
    (complete : DoorPayload payload n s) (terminated : 0 ∈ following)
    (ended : Message.digitsBehind ⟨[], following⟩ = []) :
    deliver engine publication following locals = engineStep engine (.doorMessage n s) := by
  have behind : Message.digitsBehind ⟨payload, following⟩ = [] := ended
  have decoded : msgarrvd engine.entityManager (text "door") ⟨payload, following⟩ locals =
      .ok (openDoor engine.entityManager n s) := msgarrvd_of_complete complete terminated behind locals
  rw [sent]
  refine (if_pos door_subscribed).trans ?_
  change (msgarrvd engine.entityManager (text "door") ⟨payload, following⟩ locals >>= fun manager =>
    .ok { engine with entityManager := manager }) = _
  rw [decoded]
  rfl

theorem Carries.deliver {index : Nat} {following : Bytes} {locals : Int × Int} (carries : Carries start events net log)
    (terminated : 0 ∈ following) (ended : Message.digitsBehind ⟨[], following⟩ = [])
    (taken : netStep net (.deliver index following locals) = .ok next) :
    Carries start (events ++ [.deliver index following locals]) next
      (noteSeen net (.deliver index following locals) log) := by
  have asks : (events ++ [NetEvent.deliver index following locals]).filterMap asked = events.filterMap asked := by
    rw [List.filterMap_append]
    exact List.append_nil _
  rw [netStep] at taken
  cases found : net.inFlight[index]? with
  | none =>
    rw [found] at taken
    cases taken
    rw [noteSeen, seenBy, found]
    refine ⟨?_, carries.complete, ?_⟩
    · simpa using carries.engine
    · simpa [asks] using carries.counted
  | some publication =>
    rw [found] at taken
    obtain ⟨engine, delivered, same⟩ := bind_ok_iff.mp taken
    cases same
    obtain ⟨payload, n, s, sent, complete⟩ := carries.complete publication (List.mem_of_getElem? found)
    have numbers : payloadNumbers publication.payload = some (n, s) := by
      rw [sent]
      exact payloadNumbers_of_complete complete
    rw [deliver_complete sent complete terminated ended] at delivered
    have seen : noteSeen net (.deliver index following locals) log = log ++ [.doorMessage n s] := by
      rw [noteSeen, seenBy, found, Option.bind_some, numbers]
    rw [seen]
    refine ⟨run_concat_of_ok carries.engine delivered, fun other member => ?_, ?_⟩
    · exact carries.complete other ((List.eraseIdx_sublist net.inFlight index).subset member)
    · -- The message moves from the way to the log.
      rw [asks, doorMessages_append]
      refine List.Subperm.trans (List.Perm.subperm ?_) carries.counted
      rw [List.append_assoc]
      exact (carried_perm found numbers).symm.append_left _

theorem netStep_carries {event : NetEvent K} (carries : Carries start events net log) (orderly : Orderly net event)
    (taken : netStep net event = .ok next) : Carries start (events ++ [event]) next (noteSeen net event log) := by
  have more : (events.filterMap asked).Subperm ((events ++ [event]).filterMap asked) := by
    rw [List.filterMap_append]
    exact (List.sublist_append_left _ _).subperm
  cases event with
  | client argv connects =>
    rw [noteSeen, seenBy, List.append_nil]
    exact carries.client orderly taken
  | clientCopy connects seen =>
    cases taken
    rw [noteSeen, seenBy, List.append_nil, clientCopyMain_silent, List.append_nil]
    exact ⟨carries.engine, carries.complete, carries.counted.trans more⟩
  | lose index =>
    cases taken
    rw [noteSeen, seenBy, List.append_nil]
    refine ⟨carries.engine, fun other member => ?_, ?_⟩
    · exact carries.complete other ((List.eraseIdx_sublist net.inFlight index).subset member)
    · exact (((carried_eraseIdx net.inFlight index).append_left _).subperm.trans carries.counted).trans more
  | deliver index following locals => exact carries.deliver orderly.1 orderly.2 taken
  | frame input =>
    obtain ⟨engine, stepped, same⟩ := bind_ok_iff.mp taken
    cases same
    refine ⟨run_concat_of_ok carries.engine stepped, carries.complete, ?_⟩
    rw [noteSeen, seenBy, doorMessages_append]
    simpa [doorMessages] using carries.counted.trans more
  | connectionFailed =>
    obtain ⟨engine, stepped, same⟩ := bind_ok_iff.mp taken
    cases same
    refine ⟨run_concat_of_ok carries.engine stepped, carries.complete, ?_⟩
    rw [noteSeen, seenBy, doorMessages_append]
    simpa [doorMessages] using carries.counted.trans more

end

def Behind (level : Option (Level K)) (messages : List (Int × Int)) : Prop :=
  ∀ played ∈ level, levelMessages played.events <:+ messages

section
variable [Scalar K] {engine : EngineContext K} {level : Option (Level K)} {messages : List (Int × Int)}

omit [Scalar K] in
theorem Behind.noteUpdate {input : FrameInput K} (behind : Behind level messages) :
    Behind (noteUpdate engine input level) messages := by
  unfold Engine.noteUpdate
  split
  · intro played member
    obtain ⟨before, here, rfl⟩ := Option.map_eq_some_iff.mp member
    simpa [Level.play, levelMessages] using behind before here
  · exact behind

theorem Behind.noteDraw {input : FrameInput K} (behind : Behind level messages) :
    Behind (noteDraw engine input level) messages := by
  unfold Engine.noteDraw
  split
  · split
    · exact behind
    · split
      · -- A level that is opened has seen nothing yet.
        intro played member
        cases member
        exact List.nil_suffix
      · intro played member
        cases member
  · exact behind

theorem Behind.noteEvent {event : EngineEvent K} (behind : Behind level messages) :
    Behind (noteEvent engine event level) (messages ++ doorMessages [event]) := by
  cases event with
  | frame input =>
    rw [show doorMessages [EngineEvent.frame input] = [] from rfl, List.append_nil, Engine.noteEvent]
    split
    · exact behind.noteUpdate.noteDraw
    · exact behind
  | doorMessage doorId state =>
    intro played member
    obtain ⟨before, here, rfl⟩ := Option.map_eq_some_iff.mp member
    obtain ⟨older, same⟩ := behind before here
    refine ⟨older, ?_⟩
    rw [← same, Level.play, levelMessages, List.filterMap_append, List.append_assoc]
    rfl
  | connectionFailed =>
    rw [show doorMessages [(EngineEvent.connectionFailed : EngineEvent K)] = [] from rfl, List.append_nil]
    exact behind

theorem levelAfter_messages {start final : EngineContext K} {log : List (EngineEvent K)}
    (reached : run engineStep start log = .ok final) : Behind (levelAfter start log) (doorMessages log) := by
  have kept (front : List (EngineEvent K)) (engine : EngineContext K) (level : Option (Level K)) (event : EngineEvent K)
      (next : EngineContext K) (behind : Behind level (doorMessages front)) (_ : True)
      (_ : engineStep engine event = .ok next) :
      Behind (Engine.noteEvent engine event level) (doorMessages (front ++ [event])) := by
    rw [doorMessages_append]
    exact behind.noteEvent
  have initial : Behind (none : Option (Level K)) (doorMessages ([] : List (EngineEvent K))) := by
    intro played member
    cases member
  exact history_invariant kept initial (along_of_forall (fun _ _ => trivial) start log) reached

end

theorem lastState_mem {doorId : Int} {events : List WorldEvent} (opened : lastState doorId events ≠ 0) :
    (doorId, lastState doorId events) ∈ levelMessages events := by
  unfold lastState at opened ⊢
  cases last : (events.filterMap (stateFor doorId)).getLast? with
  | none =>
    rw [last] at opened
    exact absurd rfl opened
  | some state =>
    obtain ⟨event, member, carries⟩ := List.mem_filterMap.mp (List.mem_of_getLast? last)
    refine List.mem_filterMap.mpr ⟨event, member, ?_⟩
    cases event with
    | tick keys => cases carries
    | doorMessage n s =>
      rw [stateFor] at carries
      split at carries
      · rename_i named
        cases carries
        rw [named]
        rfl
      · cases carries

/-- The doors of the engine are where the events of the level in play put them. -/
theorem shows_doorHistory {engine : EngineContext Rat} {level : Level Rat} (shows : Shows engine level) {index : Nat}
    {start : Door Rat} (placed : level.loaded.manager.doorAt index = some start) :
    ∃ door, engine.entityManager.doorAt index = some door ∧ DoorHistory start level.events door := by
  obtain ⟨loads, file, read⟩ := shows.loaded
  obtain ⟨closed, distinct⟩ := getMap_numbered read
  have updatable : Updatable (level.loaded.world level.frame).manager := loaded_updatable read shows.player
  obtain ⟨world, reached, -, doors⟩ := run_doorAt (fun door => quarters door.pos.y) updatable closed distinct level.events
    fun index door found => closed_climbs (closed index door found) _
  obtain ⟨same, played, entities, -⟩ := shows.world
  cases played.symm.trans reached
  have limit := closed_limit (closed index start placed)
  refine ⟨start.after (quarters start.pos.y) level.events, ?_, after_history limit level.events⟩
  rw [entities, doors index]
  exact congrArg (Option.map fun door => door.after (quarters door.pos.y) level.events) placed

theorem run_ticks_doorAt [Scalar K] {start world : World K} (updatable : Updatable start.manager)
    (closed : ∀ index door, start.manager.doorAt index = some door → door.isOpen = 0) {events : List WorldEvent}
    (silent : levelMessages events = []) (reached : run worldStep start events = .ok world) (index : Nat) :
    world.manager.doorAt index = start.manager.doorAt index := by
  have still {door : Door K} (shut : door.isOpen = 0) : door.lift = door := if_neg fun rises => rises.1 shut
  have ticks : ∀ event ∈ events, ∃ keys, event = .tick keys := by
    intro event member
    cases event with
    | tick keys => exact ⟨keys, rfl⟩
    | doorMessage n s =>
      have absurd : levelMessages events ≠ [] := List.ne_nil_of_mem (List.mem_filterMap.mpr ⟨_, member, rfl⟩)
      exact absurd.elim silent
  clear silent
  induction events generalizing start with
  | nil =>
    cases reached
    rfl
  | cons event rest ih =>
    obtain ⟨next, taken, remaining⟩ := run_cons_ok_iff.mp reached
    obtain ⟨⟨keys, rfl⟩, later⟩ := List.forall_mem_cons.mp ticks
    obtain ⟨held, lifted⟩ := updateAllEntities_doorAt updatable taken
    have same (index : Nat) : next.manager.doorAt index = start.manager.doorAt index := by
      rw [lifted]
      cases found : start.manager.doorAt index with
      | none => rfl
      | some door => rw [Option.map_some, still (closed index door found)]
    rw [ih held (fun index door found => closed index door (same index ▸ found)) remaining later, same]

theorem run_carries [Scalar K] {menu : Menu} {width height : Int} {events : List (NetEvent K)} {net : Net K}
    (orderly : Along netStep Orderly (netInit menu width height) events)
    (reached : run netStep (netInit menu width height) events = .ok net) :
    Carries (engineInit menu width height) events net (engineLog (netInit menu width height) events) := by
  have kept (front : List (NetEvent K)) (net : Net K) (log : List (EngineEvent K)) (event : NetEvent K) (next : Net K)
      (carries : Carries (engineInit menu width height) front net log) (orderly : Orderly net event)
      (taken : netStep net event = .ok next) :
      Carries (engineInit menu width height) (front ++ [event]) next (noteSeen net event log) :=
    netStep_carries carries orderly taken
  have initial : Carries (engineInit menu width height) [] (netInit menu width height : Net K) [] :=
    ⟨rfl, fun _ member => absurd member List.not_mem_nil, List.Subperm.refl _⟩
  exact history_invariant kept initial orderly reached

/-- In every interleaving of clients, losses, deliveries in any order and frames of the game,
the game shows the level opened last; a message reaches it at most as often as a client was
asked to send it, and each of its doors is where the messages and the ticks since put it. -/
theorem doors_follow_clients (menu : Menu) (width height : Int) (events : List (NetEvent Rat)) (net : Net Rat)
    (orderly : Along netStep Orderly (netInit menu width height) events)
    (reached : run netStep (netInit menu width height) events = .ok net) :
    InPlay net.engine (levelPlayed menu width height events) ∧
      ∀ level ∈ levelPlayed menu width height events,
        (levelMessages level.events).Subperm (events.filterMap asked) ∧
        ∀ index start, level.loaded.manager.doorAt index = some start →
          ∃ door, net.engine.entityManager.doorAt index = some door ∧ DoorHistory start level.events door ∧
            (door.isOpen ≠ 0 → (start.id, door.isOpen) ∈ events.filterMap asked) := by
  have carries := run_carries orderly reached
  have inPlay : InPlay net.engine (levelPlayed menu width height events) := run_inPlay carries.engine
  refine ⟨inPlay, fun level member => ?_⟩
  have shows : Shows net.engine level := by
    rw [Option.mem_def.mp member] at inPlay
    exact inPlay
  have counted : (levelMessages level.events).Subperm (events.filterMap asked) :=
    ((levelAfter_messages carries.engine level member).sublist.trans (List.sublist_append_left _ _)).subperm.trans
      carries.counted
  refine ⟨counted, fun index start placed => ?_⟩
  obtain ⟨door, found, history⟩ := shows_doorHistory shows placed
  refine ⟨door, found, history, fun opened => counted.subset ?_⟩
  rw [history.state] at opened ⊢
  exact lastState_mem opened

/-- A level is started, and two clients open its door and close it; the second message
arrives first. -/
def twoClients : List (NetEvent Rat) :=
  [.frame (clickFrame doorLevel (some ⟨510, 310⟩)), .frame (clickFrame doorLevel (some ⟨30, 50⟩)),
    .client [text "client", text "0", text "1"] true, .client [text "client", text "0", text "0"] true,
    .deliver 1 [0] (0, 0), .frame (clickFrame doorLevel none), .deliver 0 [0] (0, 0),
    .frame (clickFrame doorLevel none)]

theorem digits_wellUsed {status : Bytes} {s : Int} (numeral : Numeral (cString status) s) (fits : FitsInt s) :
    WellUsed [text "client", text "0", status] := by
  rintro name number other same
  cases same
  exact ⟨0, s, .unsigned (by decide) (forall_mem_of_all (by decide)), numeral, by decide, fits⟩

theorem twoClients_followed :
    ∃ net, run netStep (netInit smallMenu 1280 720) twoClients = .ok net ∧
      InPlay net.engine (levelPlayed smallMenu 1280 720 twoClients) ∧
        ∀ level ∈ levelPlayed smallMenu 1280 720 twoClients,
          (levelMessages level.events).Subperm (twoClients.filterMap asked) ∧
          ∀ index start, level.loaded.manager.doorAt index = some start →
            ∃ door, net.engine.entityManager.doorAt index = some door ∧ DoorHistory start level.events door ∧
              (door.isOpen ≠ 0 → (start.id, door.isOpen) ∈ twoClients.filterMap asked) := by
  have plays : succeedsWith (fun net : Net Rat => net.inFlight = [])
      (run netStep (netInit smallMenu 1280 720) twoClients) = true := by
    decide +kernel
  obtain ⟨net, reached, -⟩ := exists_ok_of_succeedsWith plays
  have one : Numeral (text "1") 1 := .unsigned (by decide) (forall_mem_of_all (by decide))
  have zero : Numeral (text "0") 0 := .unsigned (by decide) (forall_mem_of_all (by decide))
  have orderly : Along netStep Orderly (netInit smallMenu 1280 720) twoClients := by
    refine along_of_mem (fun event member net => ?_) _
    simp only [twoClients, List.mem_cons, List.not_mem_nil, or_false] at member
    rcases member with rfl | rfl | rfl | rfl | rfl | rfl | rfl | rfl
    · trivial
    · trivial
    · exact digits_wellUsed one (by decide)
    · exact digits_wellUsed zero (by decide)
    · exact ⟨by decide, by decide⟩
    · trivial
    · exact ⟨by decide, by decide⟩
    · trivial
  exact ⟨net, reached, doors_follow_clients smallMenu 1280 720 twoClients net orderly reached⟩

structure Silent [Scalar K] (start : EngineContext K) (net : Net K) (log : List (EngineEvent K)) : Prop where
  engine : run engineStep start log = .ok net.engine
  inFlight : net.inFlight = []
  messages : doorMessages log = []

theorem netStep_silent [Scalar K] {start : EngineContext K} {net next : Net K} {log : List (EngineEvent K)}
    {event : NetEvent K} (silent : Silent start net log) (other : ∀ argv connects, event ≠ .client argv connects)
    (taken : netStep net event = .ok next) : Silent start next (noteSeen net event log) := by
  obtain ⟨engine, inFlight, messages⟩ := silent
  cases event with
  | client argv connects => exact absurd rfl (other argv connects)
  | clientCopy connects seen =>
    cases taken
    rw [noteSeen, seenBy, List.append_nil]
    exact ⟨engine, by simp [inFlight, clientCopyMain_silent], messages⟩
  | lose index =>
    cases taken
    rw [noteSeen, seenBy, List.append_nil]
    exact ⟨engine, by simp [inFlight], messages⟩
  | deliver index following locals =>
    -- There is nothing to deliver.
    rw [netStep, inFlight] at taken
    cases taken
    rw [noteSeen, seenBy, inFlight, List.getElem?_nil, Option.bind_none, List.append_nil]
    exact ⟨engine, inFlight, messages⟩
  | frame input =>
    obtain ⟨after, stepped, same⟩ := bind_ok_iff.mp taken
    cases same
    exact ⟨run_concat_of_ok engine stepped, inFlight, by rw [noteSeen, doorMessages_append, messages]; rfl⟩
  | connectionFailed =>
    obtain ⟨after, stepped, same⟩ := bind_ok_iff.mp taken
    cases same
    exact ⟨run_concat_of_ok engine stepped, inFlight, by rw [noteSeen, doorMessages_append, messages]; rfl⟩

/-- Without a client.c no door ever moves: the program installed in its place sends nothing. -/
theorem installed_moves_no_door [Scalar K] (menu : Menu) (width height : Int) (events : List (NetEvent K)) (net : Net K)
    (installed : ∀ argv connects, NetEvent.client argv connects ∉ events)
    (reached : run netStep (netInit menu width height) events = .ok net) :
    InPlay net.engine (levelPlayed menu width height events) ∧
      ∀ level ∈ levelPlayed menu width height events,
        ∀ index, net.engine.entityManager.doorAt index = level.loaded.manager.doorAt index := by
  have others : Along netStep (fun _ event => ∀ argv connects, event ≠ NetEvent.client argv connects)
      (netInit menu width height) events := by
    refine along_of_mem (fun event member _ argv connects same => ?_) _
    subst same
    exact installed argv connects member
  have kept (net : Net K) (log : List (EngineEvent K)) (event : NetEvent K) (next : Net K)
      (silent : Silent (engineInit menu width height) net log)
      (other : ∀ argv connects, event ≠ .client argv connects)
      (taken : netStep net event = .ok next) :
      Silent (engineInit menu width height) next (noteSeen net event log) := netStep_silent silent other taken
  have silent : Silent (engineInit menu width height) net (engineLog (netInit menu width height) events) :=
    recorded_invariant kept ⟨rfl, rfl, rfl⟩ others reached
  have inPlay : InPlay net.engine (levelPlayed menu width height events) := run_inPlay silent.engine
  refine ⟨inPlay, fun level member index => ?_⟩
  rw [Option.mem_def.mp member] at inPlay
  obtain ⟨⟨loads, file, read⟩, player, -, -, world, played, entities, -⟩ := inPlay
  have unheard : levelMessages level.events = [] := by
    have behind := levelAfter_messages silent.engine level member
    rw [silent.messages] at behind
    exact List.suffix_nil.mp behind
  have closed (index : Nat) (door : Door K) (placed : level.loaded.manager.doorAt index = some door) :
      door.isOpen = 0 := by
    rw [(getMap_numbered read).1 index door placed]
    rfl
  rw [entities]
  exact run_ticks_doorAt (loaded_updatable read player) closed unheard played index

/-- A level is started, and the installed program sees its file. -/
def fileAppears : List (NetEvent Rat) :=
  [.frame (clickFrame doorLevel (some ⟨510, 310⟩)), .frame (clickFrame doorLevel (some ⟨30, 50⟩)),
    .clientCopy true [.missing, .special, .regular], .deliver 0 [0] (0, 0), .frame (clickFrame doorLevel none)]

theorem fileAppears_moves_no_door :
    ∃ net, run netStep (netInit smallMenu 1280 720) fileAppears = .ok net ∧
      InPlay net.engine (levelPlayed smallMenu 1280 720 fileAppears) ∧
        ∀ level ∈ levelPlayed smallMenu 1280 720 fileAppears,
          ∀ index, net.engine.entityManager.doorAt index = level.loaded.manager.doorAt index := by
  have plays : succeedsWith (fun net : Net Rat => net.inFlight = [])
      (run netStep (netInit smallMenu 1280 720) fileAppears) = true := by
    decide +kernel
  obtain ⟨net, reached, -⟩ := exists_ok_of_succeedsWith plays
  have installed (argv : List Bytes) (connects : Bool) : NetEvent.client argv connects ∉ fileAppears := by
    simp [fileAppears]
  exact ⟨net, reached, installed_moves_no_door smallMenu 1280 720 fileAppears net installed reached⟩

end Trigger.Network
