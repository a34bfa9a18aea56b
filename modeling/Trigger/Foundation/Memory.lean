import Mathlib.Data.List.Basic
import Mathlib.Tactic.Common

/-! C strings, fixed character arrays and the faults of a C program.

A string is the list of its bytes without the terminator. A character array
carries the bound that leaves room for the terminator, so a string that does
not fit cannot be stored; copying one is a fault of the copy.
-/

set_option autoImplicit false

namespace Trigger.Foundation

/-- What stops a C program at a point where the language gives it no meaning.
An access through an index that was never written is a `wildAccess`; any other
use of an unwritten value is `indeterminate`. -/
inductive Fault where
  | nullPointer
  | indeterminate
  | wildAccess
  | outOfBounds
  | signedOverflow
  | mismatchedType
  deriving DecidableEq, Repr

abbrev Bytes := List UInt8

def text (literal : String) : Bytes := literal.toList.flatMap String.utf8EncodeChar

theorem forall_mem_of_all {plain : UInt8 → Prop} [DecidablePred plain] {source : Bytes}
    (all : source.all (fun byte => decide (plain byte)) = true) : ∀ byte ∈ source, plain byte :=
  fun byte member => of_decide_eq_true (List.all_eq_true.mp all byte member)

/-- `char name[size]` holding a terminated string. -/
abbrev CharArray (size : Nat) := { bytes : Bytes // bytes.length < size }

/-- The string at the start of a piece of memory. -/
def cString (memory : Bytes) : Bytes := memory.takeWhile (· ≠ 0)

theorem length_cString_lt {memory : Bytes} (terminated : 0 ∈ memory) :
    (cString memory).length < memory.length := by
  induction memory with
  | nil => cases terminated
  | cons head rest ih =>
    by_cases zero : head = 0
    · simp [cString, zero]
    · have later := ih ((List.mem_cons.mp terminated).resolve_left (Ne.symm zero))
      simpa [cString, zero] using later

theorem cString_cons {byte : UInt8} (nonzero : byte ≠ 0) (memory : Bytes) :
    cString (byte :: memory) = byte :: cString memory := by
  simp [cString, nonzero]

theorem cString_append {front : Bytes} (noNul : 0 ∉ front) (back : Bytes) :
    cString (front ++ back) = front ++ cString back :=
  List.takeWhile_append_of_pos fun _ member => decide_eq_true fun zero => noNul (zero ▸ member)

theorem cString_of_no_nul {string : Bytes} (noNul : 0 ∉ string) : cString string = string := by
  simpa [cString] using cString_append noNul []

/-- What lies behind a terminator is not read. -/
theorem cString_terminated (content beyond : Bytes) : cString (content ++ 0 :: beyond) = cString content := by
  induction content with
  | nil => simp [cString]
  | cons head tail ih =>
    by_cases zero : head = 0
    · simp [cString, zero]
    · rw [List.cons_append, cString_cons zero, cString_cons zero, ih]

theorem cString_stored {string : Bytes} (noNul : 0 ∉ string) (beyond : Bytes) :
    cString (string ++ 0 :: beyond) = string := by
  rw [cString_terminated, cString_of_no_nul noNul]

theorem room256 : 0 < 256 := by decide

theorem room512 : 0 < 512 := by decide

def CharArray.empty {size : Nat} (room : 0 < size) : CharArray size := ⟨[], room⟩

def strcpy {size : Nat} (source : Bytes) : Except Fault (CharArray size) :=
  if fits : source.length < size then .ok ⟨source, fits⟩ else .error .outOfBounds

@[simp] theorem strcpy_of_fits {size : Nat} {source : Bytes} (fits : source.length < size) :
    strcpy source = .ok (⟨source, fits⟩ : CharArray size) := by
  simp [strcpy, fits]

theorem strcpy_ok_iff {size : Nat} {source : Bytes} {target : CharArray size} :
    strcpy source = .ok target ↔ source = target.val := by
  constructor
  · intro copied
    unfold strcpy at copied
    split at copied
    · cases copied; rfl
    · cases copied
  · rintro rfl
    exact strcpy_of_fits target.property

/-- `snprintf` into `char[size]`, `strncpy` of `size - 1` bytes with the
terminator set: at most `size - 1` bytes are kept. -/
def truncated (size : Nat) (room : 0 < size) (source : Bytes) : CharArray size :=
  ⟨source.take (size - 1), by simp only [List.length_take]; omega⟩

theorem truncated_of_fits {size : Nat} {room : 0 < size} {source : Bytes}
    (fits : source.length < size) : (truncated size room source).val = source := by
  simp only [truncated]
  exact List.take_of_length_le (by omega)

theorem length_truncated_le {size : Nat} {room : 0 < size} {source : Bytes} :
    (truncated size room source).val.length ≤ source.length :=
  List.length_take_le' ..

def FitsInt (value : Int) : Prop := -2147483648 ≤ value ∧ value ≤ 2147483647

instance (value : Int) : Decidable (FitsInt value) := inferInstanceAs (Decidable (_ ∧ _))

/-- The result of a conversion or of an operation on `int`s; another number has no meaning there. -/
def storeInt (value : Int) : Except Fault Int :=
  if FitsInt value then .ok value else .error .signedOverflow

theorem storeInt_ok_iff {value stored : Int} : storeInt value = .ok stored ↔ FitsInt value ∧ value = stored := by
  unfold storeInt
  split <;> simp [*]

/-- The suffix that starts at the last byte out of a set. -/
def strprbrk (charset : Bytes) : Bytes → Option Bytes
  | [] => none
  | head :: rest =>
    match strprbrk charset rest with
    | some suffix => some suffix
    | none => if head ∈ charset then some (head :: rest) else none

theorem strprbrk_eq_none_iff {charset source : Bytes} :
    strprbrk charset source = none ↔ ∀ byte ∈ source, byte ∉ charset := by
  induction source with
  | nil => simp [strprbrk]
  | cons head rest ih =>
    rw [List.forall_mem_cons, ← ih, strprbrk]
    cases strprbrk charset rest with
    | some suffix => simp
    | none => by_cases member : head ∈ charset <;> simp [member]

theorem strprbrk_append (charset front back : Bytes) : strprbrk charset (front ++ back) =
    (strprbrk charset back).or ((strprbrk charset front).map (· ++ back)) := by
  induction front with
  | nil => simp [strprbrk]
  | cons head rest ih =>
    rw [List.cons_append, strprbrk, ih, strprbrk]
    cases strprbrk charset back with
    | some suffix => simp
    | none =>
      cases strprbrk charset rest with
      | some suffix => simp
      | none => by_cases member : head ∈ charset <;> simp [member]

theorem strprbrk_eq_some {charset source suffix : Bytes} (found : strprbrk charset source = some suffix) :
    ∃ front head rest, suffix = head :: rest ∧ source = front ++ head :: rest ∧ head ∈ charset ∧
      ∀ byte ∈ rest, byte ∉ charset := by
  induction source with
  | nil => cases found
  | cons first later ih =>
    rw [strprbrk] at found
    cases behind : strprbrk charset later with
    | some other =>
      rw [behind] at found
      cases found
      obtain ⟨front, head, rest, same, split, member, last⟩ := ih behind
      exact ⟨first :: front, head, rest, same, by rw [split]; rfl, member, last⟩
    | none =>
      simp only [behind] at found
      split at found
      · rename_i member
        cases found
        exact ⟨[], first, later, rfl, rfl, member, strprbrk_eq_none_iff.mp behind⟩
      · cases found

/-- The suffix that starts at the last occurrence of a byte. -/
def strrchr (byte : UInt8) : Bytes → Option Bytes
  | [] => none
  | head :: rest =>
    match strrchr byte rest with
    | some suffix => some suffix
    | none => if head = byte then some (head :: rest) else none

theorem strrchr_eq_strprbrk (byte : UInt8) (source : Bytes) : strrchr byte source = strprbrk [byte] source := by
  induction source with
  | nil => rfl
  | cons head rest ih => simp only [strrchr, strprbrk, ih, List.mem_singleton]

theorem strrchr_eq_none_iff {byte : UInt8} {source : Bytes} :
    strrchr byte source = none ↔ byte ∉ source := by
  rw [strrchr_eq_strprbrk, strprbrk_eq_none_iff]
  simp only [List.mem_singleton]
  exact ⟨fun apart member => apart byte member rfl, fun absent other member same => absent (same ▸ member)⟩

theorem strrchr_append_of_mem {byte : UInt8} {front back : Bytes} (member : byte ∈ back) :
    strrchr byte (front ++ back) = strrchr byte back := by
  have found : strprbrk [byte] back ≠ none := fun none =>
    strrchr_eq_none_iff.mp ((strrchr_eq_strprbrk byte back).trans none) member
  obtain ⟨suffix, same⟩ := Option.ne_none_iff_exists'.mp found
  rw [strrchr_eq_strprbrk, strrchr_eq_strprbrk, strprbrk_append, same, Option.some_or]

theorem strrchr_cons_of_not_mem {byte : UInt8} {back : Bytes} (absent : byte ∉ back) :
    strrchr byte (byte :: back) = some (byte :: back) := by
  simp [strrchr, strrchr_eq_none_iff.mpr absent]

theorem strrchr_eq_some {byte : UInt8} {source suffix : Bytes} (found : strrchr byte source = some suffix) :
    ∃ front rest, suffix = byte :: rest ∧ source = front ++ byte :: rest ∧ byte ∉ rest := by
  rw [strrchr_eq_strprbrk] at found
  obtain ⟨front, head, rest, same, split, member, last⟩ := strprbrk_eq_some found
  cases List.mem_singleton.mp member
  exact ⟨front, rest, same, split, fun again => last _ again (List.mem_singleton.mpr rfl)⟩

/-- The string cut before the last occurrence of a byte, the whole when there is none. -/
def cutAtLast (byte : UInt8) (source : Bytes) : Bytes :=
  match strrchr byte source with
  | some suffix => source.take (source.length - suffix.length)
  | none => source

theorem length_cutAtLast_le (byte : UInt8) (source : Bytes) :
    (cutAtLast byte source).length ≤ source.length := by
  unfold cutAtLast
  split
  · simp only [List.length_take]; omega
  · exact Nat.le_refl _

theorem cutAtLast_append {byte : UInt8} {rest : Bytes} (absent : byte ∉ rest) (front : Bytes) :
    cutAtLast byte (front ++ byte :: rest) = front := by
  have found : strrchr byte (front ++ byte :: rest) = some (byte :: rest) := by
    rw [strrchr_append_of_mem (List.mem_cons_self ..), strrchr_cons_of_not_mem absent]
  simp [cutAtLast, found]

/-- `char name[size]` as plain memory, terminated or not. -/
abbrev Buffer (size : Nat) := { bytes : Bytes // bytes.length = size }

def Buffer.zero (size : Nat) : Buffer size := ⟨List.replicate size 0, List.length_replicate⟩

def Buffer.store {size : Nat} (buffer : Buffer size) (position : Nat) (byte : UInt8) :
    Except Fault (Buffer size) :=
  if position < size then .ok ⟨buffer.val.set position byte, by rw [List.length_set, buffer.property]⟩
  else .error .outOfBounds

/-- The string in the array; reading one that is not terminated runs over the end. -/
def Buffer.string {size : Nat} (buffer : Buffer size) : Except Fault (CharArray size) :=
  if terminated : 0 ∈ buffer.val then .ok ⟨cString buffer.val, by
    have shorter := length_cString_lt terminated
    have size := buffer.property
    omega⟩
  else .error .outOfBounds

end Trigger.Foundation
