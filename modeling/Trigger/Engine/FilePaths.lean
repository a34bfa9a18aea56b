import Trigger.Foundation.Memory

/-! raylib's functions for file names: the extension, its comparison without regard to
case, and the name behind the directories.
-/

set_option autoImplicit false

namespace Trigger.Engine
open Foundation

def extensionDot : UInt8 := 46
def extensionDelimiter : UInt8 := 59
def pathSeparators : Bytes := text "\\/"

/-- A dot that begins the path begins no extension. -/
def getFileExtension (fileName : Bytes) : Option Bytes :=
  match strrchr extensionDot fileName with
  | some dot => if dot = fileName then none else some dot
  | none => none

def lowerByte (byte : UInt8) : UInt8 := if 65 ≤ byte ∧ byte ≤ 90 then byte + 32 else byte

/-- The text is copied to a buffer of 1024 bytes. -/
def textToLower (source : Bytes) : Bytes := (source.take 1023).map lowerByte

def textSplit (source : Bytes) (delimiter : UInt8) : List Bytes := source.splitOn delimiter

def isFileExtension (fileName ext : Bytes) : Bool :=
  match getFileExtension fileName with
  | none => false
  | some fileExt =>
    let fileExtLower := (textToLower fileExt).take 16
    (textSplit ext extensionDelimiter).any fun checkExt => fileExtLower = textToLower checkExt

def getFileName (filePath : Bytes) : Bytes :=
  match strprbrk pathSeparators filePath with
  | none => filePath
  | some last => last.tail

def jsonExtension : Bytes := text ".json"

def IsJson (ext : Bytes) : Prop := textToLower ext = jsonExtension

instance (ext : Bytes) : Decidable (IsJson ext) := inferInstanceAs (Decidable (_ = _))

theorem lowerByte_eq {byte other : UInt8} (same : lowerByte byte = other) (plain : other < 97 ∨ 122 < other) :
    byte = other := by
  unfold lowerByte at same
  split at same
  · rename_i upper
    have moved : byte.toNat + 32 = other.toNat := by
      have few : byte.toNat ≤ 90 := UInt8.le_iff_toNat_le.mp upper.2
      rw [← same, UInt8.toNat_add]
      change _ = (byte.toNat + 32) % 256
      omega
    have low : 65 ≤ byte.toNat := UInt8.le_iff_toNat_le.mp upper.1
    have high : byte.toNat ≤ 90 := UInt8.le_iff_toNat_le.mp upper.2
    rcases plain with below | above
    · have small : other.toNat < 97 := UInt8.lt_iff_toNat_lt.mp below
      omega
    · have large : 122 < other.toNat := UInt8.lt_iff_toNat_lt.mp above
      omega
  · exact same

theorem IsJson.map_lowerByte {ext : Bytes} (json : IsJson ext) : ext.map lowerByte = jsonExtension := by
  have size := congrArg List.length json
  have five : jsonExtension.length = 5 := by decide
  rw [textToLower, List.length_map, List.length_take, five] at size
  have whole : ext.take 1023 = ext := List.take_of_length_le (by omega)
  rw [← json, textToLower, whole]

theorem IsJson.length_eq {ext : Bytes} (json : IsJson ext) : ext.length = jsonExtension.length := by
  rw [← json.map_lowerByte, List.length_map]

theorem IsJson.spelled {ext : Bytes} (json : IsJson ext) : ∃ rest, ext = extensionDot :: rest ∧
    extensionDot ∉ rest ∧ ∀ byte ∈ ext, byte ∉ pathSeparators := by
  have lower := json.map_lowerByte
  have kept {byte other : UInt8} (member : byte ∈ ext) (same : byte = other) (plain : lowerByte other = other) :
      other ∈ jsonExtension := by
    rw [← lower, ← plain, ← same]
    exact List.mem_map_of_mem member
  cases ext with
  | nil => cases lower
  | cons head rest =>
    have first : lowerByte head = extensionDot := (List.cons.inj lower).1
    have letters : rest.map lowerByte = text "json" := (List.cons.inj lower).2
    have begins : head = extensionDot := lowerByte_eq first (.inl (by decide))
    refine ⟨rest, by rw [begins], fun again => ?_, fun byte member separator => ?_⟩
    · have dotted : extensionDot ∈ text "json" := by
        rw [← letters]
        exact List.mem_map_of_mem again
      exact absurd dotted (by decide)
    · have separators : ∀ other ∈ pathSeparators, lowerByte other = other ∧ other ∉ jsonExtension :=
        forall_mem_of_all (by decide)
      obtain ⟨plain, apart⟩ := separators byte separator
      exact apart (kept member rfl plain)

/-- A path is accepted where it has the extension in some spelling behind something else. -/
theorem isFileExtension_json_iff {fileName : Bytes} : isFileExtension fileName jsonExtension = true ↔
    ∃ front ext, front ≠ [] ∧ fileName = front ++ ext ∧ IsJson ext := by
  have pieces : textSplit jsonExtension extensionDelimiter = [jsonExtension] := by decide
  have lowered : textToLower jsonExtension = jsonExtension := by decide
  have cut (ext : Bytes) : (textToLower ext).take 16 = jsonExtension ↔ IsJson ext := by
    constructor
    · intro same
      have size := congrArg List.length same
      have five : jsonExtension.length = 5 := by decide
      rw [List.length_take, five] at size
      rwa [List.take_of_length_le (by omega)] at same
    · intro json
      rw [json]
      decide
  constructor
  · intro accepted
    unfold isFileExtension getFileExtension at accepted
    cases found : strrchr extensionDot fileName with
    | none => simp [found] at accepted
    | some suffix =>
      obtain ⟨front, rest, same, split, -⟩ := strrchr_eq_some found
      rw [found] at accepted
      by_cases whole : suffix = fileName
      · simp [whole] at accepted
      · simp only [if_neg whole, pieces, List.any_cons, List.any_nil, Bool.or_false, decide_eq_true_eq, lowered, cut] at accepted
        refine ⟨front, suffix, ?_, by rw [split, same], accepted⟩
        rintro rfl
        exact whole (same.trans split.symm)
  · rintro ⟨front, ext, some', rfl, json⟩
    obtain ⟨rest, same, absent, -⟩ := json.spelled
    have found : strrchr extensionDot (front ++ ext) = some ext := by
      rw [same, strrchr_append_of_mem (List.mem_cons_self ..), strrchr_cons_of_not_mem absent]
    have behind : ext ≠ front ++ ext := fun whole => some' (List.append_left_eq_self.mp whole.symm)
    unfold isFileExtension getFileExtension
    simp only [found, if_neg behind, pieces, List.any_cons, List.any_nil, Bool.or_false, decide_eq_true_eq, lowered, cut]
    exact json

theorem getFileName_append (front : Bytes) {back : Bytes} (plain : ∀ byte ∈ back, byte ∉ pathSeparators) :
    getFileName (front ++ back) = getFileName front ++ back := by
  unfold getFileName
  rw [strprbrk_append, strprbrk_eq_none_iff.mpr plain, Option.none_or]
  cases found : strprbrk pathSeparators front with
  | none => rfl
  | some last =>
    obtain ⟨_, head, rest, rfl, -⟩ := strprbrk_eq_some found
    rfl

theorem getFileName_cons {separator : UInt8} (member : separator ∈ pathSeparators) {front name : Bytes}
    (plain : ∀ byte ∈ name, byte ∉ pathSeparators) : getFileName (front ++ separator :: name) = name := by
  rw [List.append_cons, getFileName_append _ plain, getFileName, strprbrk_append]
  simp [strprbrk, member]

theorem length_getFileName_lt {front back : Bytes} (cut : ∃ byte ∈ back, byte ∈ pathSeparators) :
    (getFileName (front ++ back)).length < back.length := by
  obtain ⟨byte, member, separator⟩ := cut
  have found : strprbrk pathSeparators back ≠ none := fun none => strprbrk_eq_none_iff.mp none byte member separator
  obtain ⟨last, same⟩ := Option.ne_none_iff_exists'.mp found
  obtain ⟨ahead, head, rest, rfl, split, -⟩ := strprbrk_eq_some same
  rw [getFileName, strprbrk_append, same, Option.some_or]
  simp only [List.tail_cons, split, List.length_append, List.length_cons]
  omega

end Trigger.Engine
