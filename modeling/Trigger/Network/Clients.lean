import Trigger.Engine.DoorMessage

/-! The programs that run in the emulator and speak to the game through the broker.

`client` sends the two numbers of its command line. The program that is installed in the
emulator under that name waits for a file instead.
-/

set_option autoImplicit false

namespace Trigger.Network
open Foundation Engine

structure Publication where
  topic : Bytes
  payload : Bytes
  qos : Nat
  retained : Bool
  deriving DecidableEq, Repr

def doorPublication (payload : Bytes) : Publication := ⟨text "door", payload, 0, false⟩

/-! ## client.c -/

/-- A string of the argument vector, which ends with a null pointer. -/
def argument (argv : List Bytes) (index : Nat) : Except Fault Bytes :=
  match argv[index]? with
  | some value => .ok (cString value)
  | none => if index = argv.length then .error .nullPointer else .error .outOfBounds

/-- The value `main` returns, and what it has published; `connects` when the broker answers. -/
def clientMain (argv : List Bytes) (connects : Bool) : Except Fault (Int × List Publication) := do
  -- The arguments are printed before they are counted.
  let _ ← argument argv 0
  let _ ← argument argv 1
  let _ ← argument argv 2
  if argv.length ≠ 3 then return (1, [])
  if connects = false then return (-1, [])
  let number ← argument argv 1
  let status ← argument argv 2
  let buf : CharArray 255 ← strcpy (number ++ space :: status)
  return (0, [doorPublication buf.val])

/-! ## client-copy.c -/

/-- What `stat` says of the file that is waited for. -/
inductive FileStatus where
  | missing
  | regular
  | special
  deriving DecidableEq, Repr

/-- One turn of the loop: whether it is left, and what it publishes. -/
def copyTurn (status : FileStatus) : Bool × List Publication :=
  let found := false
  -- The file sets `found` and leaves the loop at once, before `found` is tested.
  if status = .regular then (true, [])
  else if found then (true, [doorPublication (text "0 1")])
  else (false, [])

def copyLoop : List FileStatus → Bool × List Publication
  | [] => (false, [])
  | status :: rest =>
    let (left, sent) := copyTurn status
    if left then (true, sent)
    else
      let (later, more) := copyLoop rest
      (later, sent ++ more)

/-- What `main` returns and publishes while the file has these states, a second apart;
none while it still waits. -/
def clientCopyMain (connects : Bool) (seen : List FileStatus) : Option Int × List Publication :=
  if connects then
    let (left, sent) := copyLoop seen
    (if left then some 2 else none, sent)
  else (some (-1), [])

theorem copyTurn_silent (status : FileStatus) : (copyTurn status).2 = [] := by
  cases status <;> rfl

theorem copyLoop_silent (seen : List FileStatus) : (copyLoop seen).2 = [] := by
  induction seen with
  | nil => rfl
  | cons status rest ih =>
    rw [copyLoop]
    dsimp only
    split
    · exact copyTurn_silent status
    · exact List.append_eq_nil_iff.mpr ⟨copyTurn_silent status, ih⟩

/-- The installed program never publishes. -/
theorem clientCopyMain_silent (connects : Bool) (seen : List FileStatus) : (clientCopyMain connects seen).2 = [] := by
  unfold clientCopyMain
  split
  · exact copyLoop_silent seen
  · rfl

/-! ## What a client says -/

def askedNumbers (number status : Bytes) : Option (Int × Int) :=
  match scanInt number, scanInt status with
  | some (n, _), some (s, _) => some (n, s)
  | _, _ => none

def payloadNumbers (payload : Bytes) : Option (Int × Int) :=
  match scanInt payload with
  | some (n, rest) =>
    match scanInt rest with
    | some (s, _) => some (n, s)
    | none => none
  | none => none

/-- Three arguments are a name and two numbers of type `int`. -/
def WellUsed (argv : List Bytes) : Prop :=
  ∀ name number status, argv = [name, number, status] →
    ∃ n s, Numeral (cString number) n ∧ Numeral (cString status) s ∧ FitsInt n ∧ FitsInt s

theorem scanInt_numeral {numeral : Bytes} {value : Int} (isNumeral : Numeral numeral value) :
    scanInt numeral = some (value, []) :=
  scanInt_eq_some_iff.mpr ⟨[], numeral, by simp, by simp, isNumeral, by simp⟩

theorem payloadNumbers_of_complete {payload : Bytes} {n s : Int} (complete : DoorPayload payload n s) :
    payloadNumbers payload = some (n, s) := by
  obtain ⟨first, second, rfl, numeral, numeralSecond, -⟩ := complete
  have head : scanInt (first ++ space :: second) = some (n, space :: second) :=
    scanInt_eq_some_iff.mpr ⟨[], first, by simp, by simp, numeral, by simp [space, isdigit]⟩
  have tail : scanInt (space :: second) = some (s, []) :=
    scanInt_eq_some_iff.mpr ⟨[space], second, by simp, by simp [space, isspace], numeralSecond, by simp⟩
  rw [payloadNumbers, head]
  dsimp only
  rw [tail]

theorem clientMain_sends {argv : List Bytes} {connects : Bool} {code : Int} {sent : List Publication}
    (wellUsed : WellUsed argv) (ran : clientMain argv connects = .ok (code, sent)) :
    sent = [] ∨ ∃ name number status payload n s, argv = [name, number, status] ∧ connects = true ∧
      sent = [doorPublication payload] ∧ DoorPayload payload n s ∧
      askedNumbers (cString number) (cString status) = some (n, s) := by
  unfold clientMain at ran
  obtain ⟨_, _, ran⟩ := bind_ok_iff.mp ran
  obtain ⟨_, _, ran⟩ := bind_ok_iff.mp ran
  obtain ⟨_, _, ran⟩ := bind_ok_iff.mp ran
  split at ran
  · cases ran
    exact .inl rfl
  · rename_i three
    obtain ⟨name, number, status, rfl⟩ := List.length_eq_three.mp (not_not.mp three)
    split at ran
    · cases ran
      exact .inl rfl
    · rename_i connected
      obtain ⟨_, read, ran⟩ := bind_ok_iff.mp ran
      cases read
      obtain ⟨_, read, ran⟩ := bind_ok_iff.mp ran
      cases read
      obtain ⟨buf, copied, same⟩ := bind_ok_iff.mp ran
      cases same
      obtain ⟨n, s, numeral, numeralSecond, first, second⟩ := wellUsed name number status rfl
      refine .inr ⟨name, number, status, buf.val, n, s, rfl, Bool.eq_true_of_not_eq_false connected, rfl, ?_, ?_⟩
      · exact ⟨_, _, (strcpy_ok_iff.mp copied).symm, numeral, numeralSecond, first, second⟩
      · rw [askedNumbers, scanInt_numeral numeral, scanInt_numeral numeralSecond]

theorem msgarrvd_of_complete {K : Type} {manager : EntityManager K} {message : Message} {n s : Int}
    (complete : DoorPayload message.payload n s) (terminated : 0 ∈ message.following)
    (ended : message.digitsBehind = []) (locals : Int × Int) :
    msgarrvd manager (text "door") message locals = .ok (openDoor manager n s) := by
  obtain ⟨longer, rest, after, leads, follows, same⟩ := complete.leads
  cases same.mpr (.inl ended)
  obtain ⟨-, -, -, -, -, first, second⟩ := complete
  exact msgarrvd_ok_iff.mpr ⟨List.mem_append_right _ terminated, spellsInts_of_leads leads follows first second, n, s,
    .both leads follows, rfl⟩

end Trigger.Network
