import Trigger.Foundation.Memory
import Mathlib.Data.List.TakeWhile
import Mathlib.Tactic.Ring

/-! Decimal numbers at the start of a string, as `scanf` reads them.

A numeral is an optional sign and at least one digit. The conversion skips white
space and takes the longest numeral it finds.
-/

set_option autoImplicit false

namespace Trigger.Foundation

def minus : UInt8 := 45
def plus : UInt8 := 43

def isspace (byte : UInt8) : Bool := byte = 32 ∨ 9 ≤ byte ∧ byte ≤ 13

def isdigit (byte : UInt8) : Bool := 48 ≤ byte ∧ byte ≤ 57

def appendDigit (value : Nat) (digit : UInt8) : Nat := 10 * value + (digit.toNat - 48)

def decimal (digits : Bytes) : Nat := digits.foldl appendDigit 0

def signed (negative : Bool) (value : Nat) : Int := if negative then -value else value

inductive Numeral : Bytes → Int → Prop where
  | unsigned {digits : Bytes} : digits ≠ [] → (∀ byte ∈ digits, isdigit byte) →
      Numeral digits (signed false (decimal digits))
  | positive {digits : Bytes} : digits ≠ [] → (∀ byte ∈ digits, isdigit byte) →
      Numeral (plus :: digits) (signed false (decimal digits))
  | negative {digits : Bytes} : digits ≠ [] → (∀ byte ∈ digits, isdigit byte) →
      Numeral (minus :: digits) (signed true (decimal digits))

/-- Behind white space the string begins with this numeral, and no digit follows it. -/
def Leads (source : Bytes) (value : Int) (rest : Bytes) : Prop :=
  ∃ blanks numeral, source = blanks ++ (numeral ++ rest) ∧ (∀ byte ∈ blanks, isspace byte) ∧
    Numeral numeral value ∧ ∀ byte ∈ rest.head?, isdigit byte = false

def splitSign : Bytes → Bool × Bytes
  | [] => (false, [])
  | head :: rest =>
    if head = minus then (true, rest) else if head = plus then (false, rest) else (false, head :: rest)

/-- The conversion `%d`: the number and what it leaves, none when there is no number. -/
def scanInt (source : Bytes) : Option (Int × Bytes) :=
  let (negative, body) := splitSign (source.dropWhile isspace)
  let digits := body.takeWhile isdigit
  if digits = [] then none else some (signed negative (decimal digits), body.dropWhile isdigit)

section
variable {p : UInt8 → Bool} {front back : Bytes}

theorem takeWhile_stops (all : ∀ byte ∈ front, p byte) (stops : ∀ byte ∈ back.head?, p byte = false) :
    (front ++ back).takeWhile p = front := by
  rw [List.takeWhile_append_of_pos all]
  cases back with
  | nil => simp
  | cons head tail => simp [stops head rfl]

theorem dropWhile_stops (all : ∀ byte ∈ front, p byte) (stops : ∀ byte ∈ back.head?, p byte = false) :
    (front ++ back).dropWhile p = back := by
  rw [List.dropWhile_append_of_pos all]
  cases back with
  | nil => rfl
  | cons head tail => simp [stops head rfl]

end

theorem dropWhile_head {p : UInt8 → Bool} (source : Bytes) :
    ∀ byte ∈ (source.dropWhile p).head?, p byte = false := by
  intro byte member
  have stop := List.head?_dropWhile_not p source
  rw [Option.mem_def.mp member] at stop
  simpa using stop

theorem isdigit_plain {byte : UInt8} (digit : isdigit byte = true) :
    isspace byte = false ∧ byte ≠ minus ∧ byte ≠ plus := by
  simp only [isdigit, isspace, decide_eq_true_eq, decide_eq_false_iff_not, UInt8.le_iff_toNat_le,
    ← UInt8.toNat_inj, minus, plus, ne_eq] at digit ⊢
  simp only [UInt8.reduceToNat] at digit ⊢
  omega

theorem Numeral.split {numeral : Bytes} {value : Int} (isNumeral : Numeral numeral value) :
    (∀ back, ∀ byte ∈ (numeral ++ back).head?, isspace byte = false) ∧
      ∃ negative digits, (∀ back, splitSign (numeral ++ back) = (negative, digits ++ back)) ∧ digits ≠ [] ∧
        (∀ byte ∈ digits, isdigit byte) ∧ value = signed negative (decimal digits) := by
  cases isNumeral with
  | unsigned nonempty all =>
    obtain ⟨head, tail, rfl⟩ := List.exists_cons_of_ne_nil nonempty
    obtain ⟨space, notMinus, notPlus⟩ := isdigit_plain (all head (List.mem_cons_self ..))
    refine ⟨by simp [space], false, head :: tail, fun back => ?_, nonempty, all, rfl⟩
    simp [splitSign, notMinus, notPlus]
  | @positive digits nonempty all =>
    refine ⟨fun back byte member => ?_, false, digits, fun back => rfl, nonempty, all, rfl⟩
    cases member
    rfl
  | @negative digits nonempty all =>
    refine ⟨fun back byte member => ?_, true, digits, fun back => rfl, nonempty, all, rfl⟩
    cases member
    rfl

theorem numeral_of_split {body digits rest : Bytes} {negative : Bool}
    (split : splitSign body = (negative, digits ++ rest)) (nonempty : digits ≠ [])
    (all : ∀ byte ∈ digits, isdigit byte) :
    ∃ numeral, body = numeral ++ rest ∧ Numeral numeral (signed negative (decimal digits)) := by
  cases body with
  | nil =>
    have empty : [] = digits ++ rest := congrArg Prod.snd split
    exact absurd (List.append_eq_nil_iff.mp empty.symm).1 nonempty
  | cons head tail =>
    rw [splitSign] at split
    split at split
    · rename_i isMinus
      obtain ⟨rfl, same⟩ := Prod.mk.inj split
      exact ⟨minus :: digits, by rw [isMinus, same]; rfl, .negative nonempty all⟩
    · split at split
      · rename_i isPlus
        obtain ⟨rfl, same⟩ := Prod.mk.inj split
        exact ⟨plus :: digits, by rw [isPlus, same]; rfl, .positive nonempty all⟩
      · obtain ⟨rfl, same⟩ := Prod.mk.inj split
        exact ⟨digits, same, .unsigned nonempty all⟩

/-- The conversion finds exactly the numeral the string leads with. -/
theorem scanInt_eq_some_iff {source rest : Bytes} {value : Int} :
    scanInt source = some (value, rest) ↔ Leads source value rest := by
  constructor
  · intro scanned
    obtain ⟨negative, body, split⟩ : ∃ negative body, splitSign (source.dropWhile isspace) = (negative, body) :=
      ⟨_, _, rfl⟩
    rw [scanInt, split] at scanned
    dsimp only at scanned
    split at scanned
    · cases scanned
    · rename_i nonempty
      cases scanned
      have parts := (List.takeWhile_append_dropWhile (p := isdigit) (l := body)).symm
      obtain ⟨numeral, whole, isNumeral⟩ := numeral_of_split (parts ▸ split) nonempty
        fun byte member => List.mem_takeWhile_imp member
      refine ⟨source.takeWhile isspace, numeral, ?_, fun byte member => List.mem_takeWhile_imp member, isNumeral,
        dropWhile_head body⟩
      rw [← whole, List.takeWhile_append_dropWhile]
  · rintro ⟨blanks, numeral, rfl, spaces, isNumeral, stops⟩
    obtain ⟨starts, negative, digits, split, nonempty, all, rfl⟩ := isNumeral.split
    rw [scanInt, dropWhile_stops spaces (starts rest), split]
    dsimp only
    rw [takeWhile_stops all stops, dropWhile_stops all stops, if_neg nonempty]

theorem Leads.unique {source rest after : Bytes} {first second : Int} (leads : Leads source first rest)
    (also : Leads source second after) : first = second ∧ rest = after :=
  Prod.mk.inj (Option.some.inj ((scanInt_eq_some_iff.mpr leads).symm.trans (scanInt_eq_some_iff.mpr also)))

theorem scanInt_eq_none_iff {source : Bytes} : scanInt source = none ↔ ∀ value rest, ¬ Leads source value rest := by
  rw [Option.eq_none_iff_forall_ne_some]
  constructor
  · exact fun none value rest leads => none (value, rest) (scanInt_eq_some_iff.mpr leads)
  · rintro none ⟨value, rest⟩ found
    exact none value rest (scanInt_eq_some_iff.mp found)

theorem scanInt_skip (source : Bytes) : scanInt (source.dropWhile isspace) = scanInt source := by
  have none : ∀ byte ∈ ([] : Bytes), isspace byte = true := by simp
  have again := dropWhile_stops none (dropWhile_head source)
  rw [List.nil_append] at again
  rw [scanInt, scanInt, again]

theorem decimal_append (digits more : Bytes) :
    decimal (digits ++ more) = decimal digits * 10 ^ more.length + decimal more := by
  have folded (value : Nat) : more.foldl appendDigit value = value * 10 ^ more.length + decimal more := by
    induction more generalizing value with
    | nil => simp [decimal]
    | cons digit rest ih =>
      have first : decimal (digit :: rest) = (digit.toNat - 48) * 10 ^ rest.length + decimal rest := by
        rw [decimal, List.foldl_cons, ih, appendDigit, Nat.mul_zero, Nat.zero_add]
      rw [List.foldl_cons, ih, first, appendDigit, List.length_cons, pow_succ]
      ring
  rw [decimal, List.foldl_append, folded]
  rfl

theorem decimal_append_eq_iff {digits more : Bytes} : decimal (digits ++ more) = decimal digits ↔
    more = [] ∨ decimal digits = 0 ∧ decimal more = 0 := by
  rw [decimal_append]
  cases more with
  | nil => simp [show decimal [] = 0 from rfl]
  | cons digit rest =>
    have tenfold : decimal digits * 10 ^ (digit :: rest).length =
        decimal digits + decimal digits * (10 ^ (digit :: rest).length - 1) := by
      have positive : 1 ≤ 10 ^ (digit :: rest).length := Nat.one_le_pow _ _ (by decide)
      rw [Nat.mul_sub, Nat.mul_one, Nat.add_sub_cancel' (Nat.le_mul_of_pos_right _ positive)]
    have nine : 10 ^ (digit :: rest).length - 1 ≠ 0 := by
      have more : 10 ^ 1 ≤ 10 ^ (digit :: rest).length := Nat.pow_le_pow_right (by decide) (by simp)
      omega
    rw [tenfold, Nat.add_assoc, Nat.add_eq_left, Nat.add_eq_zero_iff, Nat.mul_eq_zero, or_iff_left nine]
    simp

theorem signed_inj {negative : Bool} {first second : Nat} :
    signed negative first = signed negative second ↔ first = second := by
  unfold signed
  split <;> omega

theorem signed_eq_zero_iff {negative : Bool} {value : Nat} : signed negative value = 0 ↔ value = 0 := by
  unfold signed
  split <;> omega

theorem Numeral.extend {numeral more : Bytes} {value : Int} (isNumeral : Numeral numeral value)
    (digits : ∀ byte ∈ more, isdigit byte) : ∃ longer, Numeral (numeral ++ more) longer ∧
      (longer = value ↔ more = [] ∨ value = 0 ∧ decimal more = 0) := by
  have kept (negative : Bool) (front : Bytes) : signed negative (decimal (front ++ more)) =
      signed negative (decimal front) ↔ more = [] ∨ signed negative (decimal front) = 0 ∧ decimal more = 0 := by
    rw [signed_inj, signed_eq_zero_iff, decimal_append_eq_iff]
  cases isNumeral with
  | unsigned nonempty all =>
    exact ⟨_, .unsigned (by simp [nonempty]) (List.forall_mem_append.mpr ⟨all, digits⟩), kept false _⟩
  | positive nonempty all =>
    exact ⟨_, .positive (by simp [nonempty]) (List.forall_mem_append.mpr ⟨all, digits⟩), kept false _⟩
  | negative nonempty all =>
    exact ⟨_, .negative (by simp [nonempty]) (List.forall_mem_append.mpr ⟨all, digits⟩), kept true _⟩

theorem Numeral.no_nul {numeral : Bytes} {value : Int} (isNumeral : Numeral numeral value) : 0 ∉ numeral := by
  have plain {digits : Bytes} (all : ∀ byte ∈ digits, isdigit byte) : 0 ∉ digits :=
    fun zero => absurd (all 0 zero) (by decide)
  cases isNumeral with
  | unsigned _ all => exact plain all
  | positive _ all => exact List.not_mem_cons_of_ne_of_not_mem (by decide) (plain all)
  | negative _ all => exact List.not_mem_cons_of_ne_of_not_mem (by decide) (plain all)

end Trigger.Foundation
