import Trigger.Terminal.Scanner

/-! What `clear_str` makes of a string, against the filter it is meant to be: the text
before the first prompt character without its escape sequences and control bytes.

The loop is followed over the whole memory here, since it may pass the terminator at the
prompt and end at a later one.
-/

set_option autoImplicit false

namespace Trigger.Terminal
open Foundation

/-- Each sequence from ESC '[' up to its letter m, or up to the end, is deleted. -/
def dropSequences : Bytes → Bytes
  | [] => []
  | [byte] => [byte]
  | byte :: next :: rest =>
    if byte = escape ∧ next = bracket then dropSequences (rest.dropWhile (· ≠ letterM)).tail
    else byte :: dropSequences (next :: rest)
termination_by text => text.length
decreasing_by
  · have shorter := (List.dropWhile_sublist (p := fun byte => decide (byte ≠ letterM)) (l := rest)).length_le
    simp only [List.length_tail, List.length_cons]
    omega
  · simp

def filtered (string : Bytes) : Bytes :=
  (dropSequences (string.takeWhile fun byte => ¬ (byte = tilde ∨ byte = hash))).filter fun byte => ¬ IsControl byte

/-- Whatever lies behind the string in memory, the loop returns with the filtered string,
in which no control byte is left and which a second run keeps. -/
structure ComputesFilter (string : Bytes) : Prop where
  filters : ∀ following, ∃ final, Returns scanBody (scanStart (string ++ 0 :: following)) final ∧
    cString final.memory = filtered string
  clean : ∀ following final, Returns scanBody (scanStart (string ++ 0 :: following)) final →
    ∀ byte ∈ cString final.memory, ¬ IsControl byte
  idempotent : ∀ following final, Returns scanBody (scanStart (string ++ 0 :: following)) final →
    ∃ again, Returns scanBody (scanStart final.memory) again ∧ cString again.memory = cString final.memory

/-- A string in which every control byte is followed by a byte that is none. The last byte
may be a control byte where the loop ends behind the terminator. -/
inductive Separated (endsBehind : Prop) : Bytes → Prop where
  | nil : Separated endsBehind []
  | plain {byte : UInt8} {rest : Bytes} : ¬ IsControl byte → Separated endsBehind rest →
      Separated endsBehind (byte :: rest)
  | hidden {byte next : UInt8} {rest : Bytes} : IsControl byte → ¬ (byte = escape ∧ next = bracket) →
      ¬ IsControl next → Separated endsBehind rest → Separated endsBehind (byte :: next :: rest)
  | sequence {body rest : Bytes} : letterM ∉ body → Separated endsBehind rest →
      Separated endsBehind (escape :: bracket :: (body ++ letterM :: rest))
  | unfinished {body : Bytes} : letterM ∉ body → Separated endsBehind (escape :: bracket :: body)
  | last {byte : UInt8} : IsControl byte → endsBehind → Separated endsBehind [byte]

def Filterable (string : Bytes) : Prop :=
  Separated (∃ text ∈ textsBehind string, Cleanable text) (beforePrompt string)

def standing (written dropped rest : Bytes) (inEscape : Bool) (touched : List Nat) : Scan :=
  ⟨written ++ (dropped ++ rest), written.length + dropped.length, written.length, inEscape, touched⟩

/-- The loop returns with the text in front of a terminator, or never when there is a fault. -/
def Yields (scan : Scan) (result : Except Fault Bytes) : Prop :=
  match result with
  | .ok output => ∃ final beyond, Returns scanBody scan final ∧ final.memory = output ++ 0 :: beyond
  | .error _ => ∀ final, ¬ Returns scanBody scan final

theorem Yields.step {scan next : Scan} {result : Except Fault Bytes} (taken : scanBody scan = .ok (.goOn next))
    (later : Yields next result) : Yields scan result := by
  cases result with
  | ok output =>
    obtain ⟨final, beyond, returned, stored⟩ := later
    exact ⟨final, beyond, (returns_iff_of_goOn taken).mpr returned, stored⟩
  | error fault => exact fun final returned => later final ((returns_iff_of_goOn taken).mp returned)

section Standing
variable (written dropped : Bytes) (touched : List Nat)

theorem standing_at (rest : Bytes) (inEscape : Bool) (offset : Nat) :
    (standing written dropped rest inEscape touched).memory[(standing written dropped rest inEscape touched).src + offset]? =
      rest[offset]? := by
  show (written ++ (dropped ++ rest))[written.length + dropped.length + offset]? = _
  rw [List.getElem?_append_right (by omega), List.getElem?_append_right (by omega)]
  congr 1
  omega

theorem standing_room (byte : UInt8) (rest : Bytes) (inEscape : Bool) :
    (standing written dropped (byte :: rest) inEscape touched).dst <
      (standing written dropped (byte :: rest) inEscape touched).memory.length := by
  show written.length < (written ++ (dropped ++ byte :: rest)).length
  simp only [List.length_append, List.length_cons]
  omega

theorem scanBody_past (inEscape : Bool) :
    scanBody (standing written dropped [] inEscape touched) = .error .outOfBounds := by
  have nothing := standing_at written dropped touched [] inEscape 0
  rw [Nat.add_zero] at nothing
  simp only [scanBody, Scan.read, nothing]
  rfl

theorem yields_terminator (rest : Bytes) (inEscape : Bool) :
    Yields (standing written dropped (0 :: rest) inEscape touched) (.ok written) := by
  have terminator := standing_at written dropped touched (0 :: rest) inEscape 0
  have room := standing_room written dropped touched 0 rest inEscape
  refine ⟨_, (dropped ++ [0]).tail ++ rest, ⟨_, .refl _, scanBody_terminator terminator room⟩, ?_⟩
  show (written ++ (dropped ++ 0 :: rest)).set written.length 0 = _
  rw [set_written, List.append_assoc]
  rfl

theorem standing_dropped (front rest : Bytes) (inEscape : Bool) :
    standing written (dropped ++ front) rest inEscape touched =
      ⟨written ++ (dropped ++ (front ++ rest)), written.length + dropped.length + front.length, written.length,
        inEscape, touched⟩ := by
  simp only [standing, List.append_assoc, List.length_append, Nat.add_assoc]

theorem standing_copied (byte copied : UInt8) (extra rest : Bytes) (inEscape : Bool) :
    standing (written ++ [copied]) ((dropped ++ [byte]).tail ++ extra) rest inEscape touched =
      ⟨(written ++ (dropped ++ byte :: (extra ++ rest))).set written.length copied,
        written.length + dropped.length + extra.length + 1, written.length + 1, inEscape, touched⟩ := by
  rw [standing, set_written]
  simp only [List.append_assoc, List.length_append, List.length_tail, List.length_singleton, Scan.mk.injEq, and_true,
    true_and]
  omega

end Standing

theorem map_copied (written : Bytes) (copied : UInt8) (result : Except Fault Bytes) :
    (result.map (copied :: ·)).map (written ++ ·) = result.map ((written ++ [copied]) ++ ·) := by
  cases result <;> simp [Except.map]

theorem not_returns_lone {byte : UInt8} (nonzero : byte ≠ 0) (written dropped : Bytes) (touched : List Nat)
    (final : Scan) : ¬ Returns scanBody (standing written dropped [byte] false touched) final := by
  let scan := standing written dropped [byte] false touched
  have there : scan.memory[scan.src]? = some byte := standing_at written dropped touched [byte] false 0
  have nothing : scan.memory[scan.src + 1]? = none := standing_at written dropped touched [byte] false 1
  have room : scan.dst < scan.memory.length := standing_room written dropped touched byte [] false
  have outside : scan.inEscape = false := rfl
  by_cases control : IsControl byte
  · have failed : scanBody scan = .error .outOfBounds := by
      simp only [scanBody, Scan.read_of_some there, bind, Except.bind, if_neg nonzero, outside, Bool.false_eq_true,
        if_false]
      by_cases isEscape : byte = escape
      · simp [Scan.opensEscape, isEscape, Scan.read, nothing, bind, Except.bind]
      · simp [Scan.opensEscape, isEscape, Scan.read, nothing, control, pure, Except.pure]
    exact not_returns_of_error failed final
  · have notEscape : byte ≠ escape := fun same => control (same ▸ by decide)
    have taken : scanBody scan = .ok (.goOn (standing (written ++ [byte]) ((dropped ++ [byte]).tail ++ []) [] false
        (scan.dst :: scan.src :: scan.src :: touched))) := by
      rw [standing_copied]
      simp only [scanBody, Scan.read_of_some there, bind, Except.bind, if_neg nonzero, outside, Bool.false_eq_true,
        if_false, Scan.opensEscape, notEscape, control, pure, Except.pure]
      simp only [Scan.read, there, Scan.write, room, if_true]
      rfl
    rw [returns_iff_of_goOn taken]
    exact not_returns_of_error (scanBody_past ..) final

/-- The loop in memory computes the pure scan, through however many terminators it passes. -/
theorem yields_clearScan (inEscape : Bool) (rest written dropped : Bytes) (touched : List Nat) :
    Yields (standing written dropped rest inEscape touched) ((clearScan inEscape rest).map (written ++ ·)) := by
  fun_induction clearScan inEscape rest generalizing written dropped touched with
  | case1 inEscape => exact not_returns_of_error (scanBody_past written dropped touched inEscape)
  | case2 rest => simpa [Except.map] using yields_terminator written dropped touched rest true
  | case3 byte rest nonzero ih =>
    have there := standing_at written dropped touched (byte :: rest) true 0
    have later := ih written (dropped ++ [byte]) ((written.length + dropped.length) :: touched)
    rw [standing_dropped] at later
    exact later.step (scanBody_inside there nonzero rfl)
  | case4 => simpa [Except.map] using yields_terminator written dropped touched [] false
  | case5 byte nonzero => exact not_returns_lone nonzero written dropped touched
  | case6 next rest => simpa [Except.map] using yields_terminator written dropped touched (next :: rest) false
  | case7 byte next rest _ opens ih =>
    obtain ⟨rfl, rfl⟩ := opens
    have there := standing_at written dropped touched (escape :: bracket :: rest) false 0
    have following := standing_at written dropped touched (escape :: bracket :: rest) false 1
    have later := ih written (dropped ++ [escape, bracket])
      ((written.length + dropped.length + 1) :: (written.length + dropped.length) :: touched)
    rw [standing_dropped] at later
    exact later.step (scanBody_opened there following rfl)
  | case8 byte next rest nonzero closed control ih =>
    have there := standing_at written dropped touched (byte :: next :: rest) false 0
    have following := standing_at written dropped touched (byte :: next :: rest) false 1
    have room := standing_room written dropped touched byte (next :: rest) false
    obtain ⟨accessed, taken, -⟩ := scanBody_copies there following nonzero rfl closed
      (by rw [if_pos control]; exact following) room
    have later := ih (written ++ [next]) ((dropped ++ [byte]).tail ++ [next]) (accessed ++ touched)
    rw [standing_copied, ← map_copied] at later
    rw [if_pos control] at taken
    exact later.step taken
  | case9 byte next rest nonzero closed visible ih =>
    have there := standing_at written dropped touched (byte :: next :: rest) false 0
    have following := standing_at written dropped touched (byte :: next :: rest) false 1
    have room := standing_room written dropped touched byte (next :: rest) false
    obtain ⟨accessed, taken, -⟩ := scanBody_copies there following nonzero rfl closed
      (by rw [if_neg visible]; exact there) room
    have later := ih (written ++ [byte]) ((dropped ++ [byte]).tail ++ []) (accessed ++ touched)
    rw [standing_copied, ← map_copied] at later
    rw [if_neg visible] at taken
    exact later.step taken

theorem noNul_textsBehind {string : Bytes} (noNul : 0 ∉ string) : ∀ text ∈ textsBehind string, 0 ∉ text := by
  have inside {byte : UInt8} {source text : Bytes} (member : text ∈ behind byte source) : text ⊆ source := by
    unfold behind at member
    split at member
    · cases member
    · next head rest found =>
      cases List.mem_singleton.mp member
      exact fun other listed => (List.dropWhile_sublist _).subset (found ▸ List.mem_cons_of_mem head listed)
  intro text member zero
  rcases List.mem_append.mp member with first | second
  · exact noNul (List.takeWhile_subset _ (inside first zero))
  · exact noNul (inside second zero)

/-- The scan of the memory ends at a terminator. -/
def Ends (memory : Bytes) : Prop := ∃ output, clearScan false memory = .ok output

/-- A string that the grammar does not cover has a control byte alone at its end, so the
scan passes its terminator. -/
theorem ends_beyond_iff {text : Bytes} (noNul : 0 ∉ text) (uncovered : ¬ Cleanable text) (beyond : Bytes) :
    Ends (text ++ 0 :: beyond) ↔ Ends beyond := by
  induction text using pieces_induction with
  | nil => exact absurd .nil uncovered
  | plain byte rest visible ih =>
    rw [List.mem_cons, not_or] at noNul
    rw [Ends, List.cons_append, clearScan_plain (Ne.symm noNul.1) visible, map_succeeds_iff]
    exact ih noNul.2 fun covered => uncovered (.plain visible covered)
  | lone byte control =>
    rw [List.mem_singleton] at noNul
    rw [Ends, List.cons_append, List.nil_append, clearScan_last (Ne.symm noNul) control]
    exact map_succeeds_iff
  | hidden byte next rest control closed ih =>
    simp only [List.mem_cons, not_or] at noNul
    rw [Ends, List.cons_append, List.cons_append, clearScan_hidden (Ne.symm noNul.1) control closed, map_succeeds_iff]
    exact ih noNul.2.2 fun covered => uncovered (.hidden control closed covered)
  | sequence body rest noLetter ih =>
    simp only [List.mem_cons, List.mem_append, not_or] at noNul
    rw [Ends, List.cons_append, List.cons_append, clearScan_opened, List.append_assoc, List.cons_append,
      clearScan_sequence noLetter noNul.2.2.1]
    exact ih noNul.2.2.2.2 fun covered => uncovered (.sequence noLetter covered)
  | unfinished body noLetter => exact absurd (.unfinished noLetter) uncovered

theorem ends_terminated_iff {texts : List Bytes} (noNul : ∀ text ∈ texts, 0 ∉ text) (following : Bytes) :
    Ends (terminated texts ++ following) ↔ (∃ text ∈ texts, Cleanable text) ∨ Ends following := by
  induction texts with
  | nil => simp [terminated]
  | cons text rest ih =>
    rw [List.forall_mem_cons] at noNul
    have shape : terminated (text :: rest) ++ following = text ++ 0 :: (terminated rest ++ following) := by
      simp [terminated]
    simp only [shape, List.mem_cons, exists_eq_or_imp]
    by_cases covered : Cleanable text
    · obtain ⟨output, scanned⟩ := covered.scanned noNul.1
      exact iff_of_true ⟨output, scanned _⟩ (.inl (.inl covered))
    · rw [ends_beyond_iff noNul.1 covered, ih noNul.2, or_iff_right covered]

theorem dropSequences_cons {byte : UInt8} (closed : byte ≠ escape) (rest : Bytes) :
    dropSequences (byte :: rest) = byte :: dropSequences rest := by
  cases rest with
  | nil => rw [dropSequences, dropSequences]
  | cons next rest => rw [dropSequences, if_neg fun both => closed both.1]

theorem dropSequences_opened {body : Bytes} (noLetter : letterM ∉ body) :
    dropSequences (escape :: bracket :: body) = [] := by
  have all : body.dropWhile (· ≠ letterM) = [] := by
    rw [List.dropWhile_eq_nil_iff]
    exact fun byte member => decide_eq_true fun same => noLetter (same ▸ member)
  rw [dropSequences, if_pos ⟨rfl, rfl⟩, all]
  exact dropSequences.eq_1

theorem dropWhile_letter {body : Bytes} (noLetter : letterM ∉ body) (rest : Bytes) :
    (body ++ letterM :: rest).dropWhile (· ≠ letterM) = letterM :: rest := by
  have inside : ∀ byte ∈ body, decide (byte ≠ letterM) = true :=
    fun byte member => decide_eq_true fun same => noLetter (same ▸ member)
  rw [List.dropWhile_append_of_pos inside]
  exact List.dropWhile_cons_of_neg (by simp)

theorem dropSequences_sequence {body : Bytes} (noLetter : letterM ∉ body) (rest : Bytes) :
    dropSequences (escape :: bracket :: (body ++ letterM :: rest)) = dropSequences rest := by
  rw [dropSequences, if_pos ⟨rfl, rfl⟩, dropWhile_letter noLetter]
  rfl

theorem dropSequences_sublist (string : Bytes) : List.Sublist (dropSequences string) string := by
  fun_induction dropSequences string with
  | case1 => exact List.Sublist.refl _
  | case2 byte => exact List.Sublist.refl _
  | case3 byte next rest opens ih =>
    exact ((ih.trans (List.tail_sublist _)).trans (List.dropWhile_sublist _)).trans
      ((List.sublist_cons_self ..).trans (List.sublist_cons_self ..))
  | case4 byte next rest closed ih => exact ih.cons_cons byte

theorem Separated.scanned {endsBehind : Prop} {rest : Bytes} (separated : Separated endsBehind rest)
    (noNul : 0 ∉ rest) {beyond : Bytes} (ends : endsBehind → Ends beyond) :
    ∃ output, clearScan false (rest ++ 0 :: beyond) = .ok output ∧
      cString output = (dropSequences rest).filter fun byte => ¬ IsControl byte := by
  induction separated with
  | nil => exact ⟨[], clearScan_terminator beyond, by rw [dropSequences]; rfl⟩
  | @plain byte rest visible _ ih =>
    rw [List.mem_cons, not_or] at noNul
    obtain ⟨output, scanned, same⟩ := ih noNul.2
    have notEscape : byte ≠ escape := fun equal => visible (equal ▸ by decide)
    refine ⟨byte :: output, ?_, ?_⟩
    · rw [List.cons_append, clearScan_plain (Ne.symm noNul.1) visible, scanned]
      rfl
    · rw [cString_cons (Ne.symm noNul.1), same, dropSequences_cons notEscape,
        List.filter_cons_of_pos (by simpa using visible)]
  | @hidden byte next rest control closed visible _ ih =>
    simp only [List.mem_cons, not_or] at noNul
    obtain ⟨output, scanned, same⟩ := ih noNul.2.2
    have notEscape : next ≠ escape := fun equal => visible (equal ▸ by decide)
    refine ⟨next :: output, ?_, ?_⟩
    · rw [List.cons_append, List.cons_append, clearScan_hidden (Ne.symm noNul.1) control closed, scanned]
      rfl
    · rw [cString_cons (Ne.symm noNul.2.1), same, dropSequences, if_neg closed,
        List.filter_cons_of_neg (by simpa using control), dropSequences_cons notEscape,
        List.filter_cons_of_pos (by simpa using visible)]
  | @sequence body rest noLetter _ ih =>
    simp only [List.mem_cons, List.mem_append, not_or] at noNul
    obtain ⟨output, scanned, same⟩ := ih noNul.2.2.2.2
    refine ⟨output, ?_, by rw [same, dropSequences_sequence noLetter]⟩
    rw [List.cons_append, List.cons_append, clearScan_opened, List.append_assoc, List.cons_append,
      clearScan_sequence noLetter noNul.2.2.1, scanned]
  | @unfinished body noLetter =>
    simp only [List.mem_cons, not_or] at noNul
    refine ⟨[], ?_, by rw [dropSequences_opened noLetter]; rfl⟩
    rw [List.cons_append, List.cons_append, clearScan_opened, clearScan_unfinished noLetter noNul.2.2]
  | @last byte control behind =>
    rw [List.mem_singleton] at noNul
    obtain ⟨output, scanned⟩ := ends behind
    refine ⟨0 :: output, ?_, ?_⟩
    · rw [List.cons_append, List.nil_append, clearScan_last (Ne.symm noNul) control, scanned]
      rfl
    · rw [dropSequences, List.filter_cons_of_neg (by simpa using control)]
      simp [cString]

theorem separated_of_clean {endsBehind : Prop} {rest beyond output : Bytes} (noNul : 0 ∉ rest)
    (scanned : clearScan false (rest ++ 0 :: beyond) = .ok output)
    (clean : ∀ byte ∈ cString output, ¬ IsControl byte) (ends : Ends beyond → endsBehind) :
    Separated endsBehind rest := by
  induction rest using pieces_induction generalizing output with
  | nil => exact .nil
  | plain byte rest visible ih =>
    rw [List.mem_cons, not_or] at noNul
    rw [List.cons_append, clearScan_plain (Ne.symm noNul.1) visible] at scanned
    obtain ⟨text, later, rfl⟩ := map_ok_iff.mp scanned
    rw [cString_cons (Ne.symm noNul.1), List.forall_mem_cons] at clean
    exact .plain visible (ih noNul.2 later clean.2)
  | lone byte control =>
    rw [List.mem_singleton] at noNul
    rw [List.cons_append, List.nil_append, clearScan_last (Ne.symm noNul) control] at scanned
    exact .last control (ends (map_succeeds_iff.mp ⟨output, scanned⟩))
  | hidden byte next rest control closed ih =>
    simp only [List.mem_cons, not_or] at noNul
    rw [List.cons_append, List.cons_append, clearScan_hidden (Ne.symm noNul.1) control closed] at scanned
    obtain ⟨text, later, rfl⟩ := map_ok_iff.mp scanned
    rw [cString_cons (Ne.symm noNul.2.1), List.forall_mem_cons] at clean
    exact .hidden control closed clean.1 (ih noNul.2.2 later clean.2)
  | sequence body rest noLetter ih =>
    simp only [List.mem_cons, List.mem_append, not_or] at noNul
    rw [List.cons_append, List.cons_append, clearScan_opened, List.append_assoc, List.cons_append,
      clearScan_sequence noLetter noNul.2.2.1] at scanned
    exact .sequence noLetter (ih noNul.2.2.2.2 scanned clean)
  | unfinished body noLetter => exact .unfinished noLetter

theorem exists_terminated {memory : Bytes} (zero : 0 ∈ memory) : ∃ beyond, memory = cString memory ++ 0 :: beyond := by
  induction memory with
  | nil => cases zero
  | cons head rest ih =>
    by_cases found : head = 0
    · exact ⟨rest, by simp [cString, found]⟩
    · obtain ⟨beyond, same⟩ := ih ((List.mem_cons.mp zero).resolve_left (Ne.symm found))
      exact ⟨beyond, by rw [cString_cons found, List.cons_append, ← same]⟩

theorem noNul_cString (memory : Bytes) : 0 ∉ cString memory := fun zero =>
  absurd (List.mem_takeWhile_imp zero) (by decide)

theorem filtered_eq (string : Bytes) :
    filtered string = (dropSequences (beforePrompt string)).filter fun byte => ¬ IsControl byte := by
  rw [filtered, beforePrompt, List.takeWhile_takeWhile]
  congr 3
  funext byte
  simp [not_or, and_comm]

theorem plain_of_filtered {string : Bytes} {byte : UInt8} (member : byte ∈ filtered string) :
    ¬ IsControl byte ∧ byte ≠ tilde ∧ byte ≠ hash := by
  obtain ⟨listed, visible⟩ := List.mem_filter.mp member
  have kept := List.mem_takeWhile_imp ((dropSequences_sublist _).subset listed)
  simpa [not_or] using And.intro (of_decide_eq_true visible) (of_decide_eq_true kept)

theorem yields_scanStart (memory : Bytes) : Yields (scanStart memory) (clearScan false (scanStart memory).memory) := by
  have same : (clearScan false (scanStart memory).memory).map ([] ++ ·) = clearScan false (scanStart memory).memory := by
    cases clearScan false (scanStart memory).memory <;> rfl
  rw [← same]
  exact yields_clearScan false (scanStart memory).memory [] [] []

/-- The loop computes what the console's `clearStr` says, and returns on no other string. -/
theorem clearStr_refined (string output : Bytes) : clearStr string = .ok output ↔
    ∃ final, Returns scanBody (scanStart (string ++ [0])) final ∧ cString final.memory = output := by
  have yields := yields_scanStart (string ++ [0])
  have pure : clearStr string = (clearScan false (scanStart (string ++ [0])).memory).map cString := rfl
  cases scanned : clearScan false (scanStart (string ++ [0])).memory with
  | error fault =>
    rw [scanned] at yields pure
    rw [pure]
    constructor
    · rintro ⟨⟩
    · rintro ⟨final, returned, -⟩
      exact absurd returned (yields final)
  | ok text =>
    rw [scanned] at yields pure
    obtain ⟨final, beyond, returned, stored⟩ := yields
    have same : cString final.memory = cString text := by rw [stored, cString_terminated]
    rw [pure]
    constructor
    · rintro ⟨⟩
      exact ⟨final, returned, same⟩
    · rintro ⟨other, returnedOther, rfl⟩
      cases returned.unique returnedOther
      rw [same]
      rfl

theorem Filterable.returns {string : Bytes} (filterable : Filterable string) (noNul : 0 ∉ string) (following : Bytes) :
    ∃ final, Returns scanBody (scanStart (string ++ 0 :: following)) final ∧ cString final.memory = filtered string ∧
      0 ∈ final.memory := by
  obtain ⟨output, scanned, same⟩ := Separated.scanned filterable (noNul_beforePrompt noNul) fun covered =>
    (ends_terminated_iff (noNul_textsBehind noNul) following).mpr (.inl covered)
  have yields := yields_scanStart (string ++ 0 :: following)
  rw [memory_scanStart noNul, scanned] at yields
  obtain ⟨final, beyond, returned, stored⟩ := yields
  refine ⟨final, returned, ?_, ?_⟩
  · rw [stored, cString_terminated, same, filtered_eq]
  · rw [stored]
    exact List.mem_append_right _ (List.mem_cons_self ..)

theorem takeWhile_of_plain {text : Bytes} {byte : UInt8} (absent : byte ∉ text) : text.takeWhile (· ≠ byte) = text :=
  List.takeWhile_eq_self_iff.mpr fun _ member => decide_eq_true fun same => absent (same ▸ member)

theorem filterable_of_plain {text : Bytes} (plain : ∀ byte ∈ text, ¬ IsControl byte ∧ byte ≠ tilde ∧ byte ≠ hash) :
    Filterable text ∧ filtered text = text := by
  have noTilde : tilde ∉ text := fun member => (plain tilde member).2.1 rfl
  have noHash : hash ∉ text := fun member => (plain hash member).2.2 rfl
  have whole : beforePrompt text = text := by
    rw [beforePrompt, takeWhile_of_plain noTilde, takeWhile_of_plain noHash]
  have separated (endsBehind : Prop) : Separated endsBehind text ∧ dropSequences text = text := by
    clear noTilde noHash whole
    induction text with
    | nil => exact ⟨.nil, dropSequences.eq_1⟩
    | cons head tail ih =>
      rw [List.forall_mem_cons] at plain
      have notEscape : head ≠ escape := fun same => plain.1.1 (same ▸ by decide)
      obtain ⟨separated, kept⟩ := ih plain.2
      exact ⟨.plain plain.1.1 separated, by rw [dropSequences_cons notEscape, kept]⟩
  constructor
  · rw [Filterable, whole]
    exact (separated _).1
  · rw [filtered_eq, whole, (separated True).2]
    exact List.filter_eq_self.mpr fun byte member => decide_eq_true (plain byte member).1

theorem Filterable.computes {string : Bytes} (filterable : Filterable string) (noNul : 0 ∉ string) :
    ComputesFilter string := by
  have result (following : Bytes) (final : Scan)
      (returned : Returns scanBody (scanStart (string ++ 0 :: following)) final) :
      cString final.memory = filtered string ∧ 0 ∈ final.memory := by
    obtain ⟨other, returnedOther, text, terminated⟩ := filterable.returns noNul following
    cases returned.unique returnedOther
    exact ⟨text, terminated⟩
  constructor
  · intro following
    obtain ⟨final, returned, text, -⟩ := filterable.returns noNul following
    exact ⟨final, returned, text⟩
  · intro following final returned byte member
    rw [(result following final returned).1] at member
    exact (plain_of_filtered member).1
  · intro following final returned
    obtain ⟨text, zero⟩ := result following final returned
    obtain ⟨beyond, stored⟩ := exists_terminated zero
    have plain : ∀ byte ∈ cString final.memory, ¬ IsControl byte ∧ byte ≠ tilde ∧ byte ≠ hash :=
      fun byte member => plain_of_filtered (text ▸ member)
    obtain ⟨again, kept⟩ := filterable_of_plain plain
    obtain ⟨second, returnedAgain, same, -⟩ := again.returns (noNul_cString final.memory) beyond
    rw [← stored] at returnedAgain
    exact ⟨second, returnedAgain, same.trans kept⟩

theorem ComputesFilter.filterable {string : Bytes} (computes : ComputesFilter string) (noNul : 0 ∉ string) :
    Filterable string := by
  obtain ⟨final, returned, -⟩ := computes.filters []
  have yields := yields_scanStart (string ++ [0])
  rw [memory_scanStart noNul, List.append_nil] at yields
  cases scanned : clearScan false (beforePrompt string ++ 0 :: terminated (textsBehind string)) with
  | error fault =>
    rw [scanned] at yields
    exact absurd returned (yields final)
  | ok output =>
    rw [scanned] at yields
    obtain ⟨other, beyond, returnedOther, stored⟩ := yields
    have clean := computes.clean [] other returnedOther
    rw [stored, cString_terminated] at clean
    refine separated_of_clean (noNul_beforePrompt noNul) scanned clean fun ends => ?_
    have behind := (ends_terminated_iff (noNul_textsBehind noNul) []).mp (by rwa [List.append_nil])
    refine behind.resolve_right ?_
    rintro ⟨output, nothing⟩
    cases nothing

/-- `clear_str` computes its filter exactly on the strings in which the byte behind every
control byte is none, a control byte before the prompt aside. -/
theorem computesFilter_iff (string : Bytes) (noNul : 0 ∉ string) : ComputesFilter string ↔ Filterable string := by
  constructor
  · intro computes
    exact computes.filterable noNul
  · intro filterable
    exact filterable.computes noNul

def bellWord : Bytes := text "\x07ok"

theorem bellWord_computesFilter : ComputesFilter bellWord :=
  (computesFilter_iff bellWord (by decide)).mpr (.hidden (by decide) (by decide) (by decide) (.plain (by decide) .nil))

def twoBells : Bytes := text "\x07\x07a"

theorem twoBells_not_computesFilter : 0 ∉ twoBells ∧ ¬ ComputesFilter twoBells := by
  refine ⟨by decide, fun computes => ?_⟩
  have yields := yields_scanStart (twoBells ++ [0])
  have scanned : clearScan false (scanStart (twoBells ++ [0])).memory = .ok [7, 97] := by decide
  rw [scanned] at yields
  obtain ⟨final, beyond, returned, stored⟩ := yields
  have copied : 7 ∈ cString final.memory := by
    rw [stored, cString_terminated]
    decide
  exact computes.clean [] final returned 7 copied (by decide)

end Trigger.Terminal
