import Trigger.Foundation.Loops
import Trigger.Terminal.Chunking

/-! The loop of `clear_str` with its two pointers in memory.

Behind a control byte the loop copies the next byte unseen. Where that byte is the
terminator, `src` passes it and the loop goes on in whatever memory follows.
-/

set_option autoImplicit false

namespace Trigger.Terminal
open Foundation

/-- The variables of the loop, and the addresses it has read and written so far. -/
structure Scan where
  memory : Bytes
  src : Nat
  dst : Nat
  inEscape : Bool
  touched : List Nat
  deriving DecidableEq

def Scan.read (scan : Scan) (address : Nat) : Except Fault (UInt8 × Scan) :=
  match scan.memory[address]? with
  | some byte => .ok (byte, { scan with touched := address :: scan.touched })
  | none => .error .outOfBounds

def Scan.write (scan : Scan) (address : Nat) (byte : UInt8) : Except Fault Scan :=
  if address < scan.memory.length then
    .ok { scan with memory := scan.memory.set address byte, touched := address :: scan.touched }
  else .error .outOfBounds

/-- `*src == '\033' && *(src + 1) == '['`: the second byte is read behind an ESC only. -/
def Scan.opensEscape (scan : Scan) (byte : UInt8) : Except Fault (Bool × Scan) := do
  if byte = escape then
    let (following, scan) ← scan.read (scan.src + 1)
    return (following = bracket, scan)
  else return (false, scan)

/-- One round of `while (*src)`; on leaving it the text is terminated at `dst`. -/
def scanBody (scan : Scan) : Except Fault (Pass Scan Scan) := do
  let (byte, scan) ← scan.read scan.src
  if byte = 0 then
    let scan ← scan.write scan.dst 0
    return .leave scan
  else if scan.inEscape then
    return .goOn { scan with src := scan.src + 1, inEscape := byte ≠ letterM }
  else
    let (opens, scan) ← scan.opensEscape byte
    if opens then
      return .goOn { scan with src := scan.src + 2, inEscape := true }
    else
      -- The control byte is stepped over; the copy below follows in either case.
      let src := if IsControl byte then scan.src + 1 else scan.src
      let (copied, scan) ← scan.read src
      let scan ← scan.write scan.dst copied
      return .goOn { scan with src := src + 1, dst := scan.dst + 1 }

/-- The loop starts on the string cut at its first '~' and then at its first '#'. -/
def scanStart (memory : Bytes) : Scan where
  memory := terminateAt hash (terminateAt tilde memory)
  src := 0
  dst := 0
  inEscape := false
  touched := []

/-- No address behind the terminator is reached by `src` or accessed, and the loop ends. -/
structure StaysInside (start : Scan) : Prop where
  inside : ∀ scan, Reaches scanBody start scan →
    scan.src ≤ (cString start.memory).length ∧ ∀ address ∈ scan.touched, address ≤ (cString start.memory).length
  returns : ∃ final, Returns scanBody start final ∧ ∀ address ∈ final.touched, address ≤ (cString start.memory).length

def beforePrompt (string : Bytes) : Bytes := (string.takeWhile (· ≠ tilde)).takeWhile (· ≠ hash)

/-- A sequence of plain bytes, control bytes each with the byte behind it, and escape
sequences, of which the last may be unfinished. -/
inductive Cleanable : Bytes → Prop where
  | nil : Cleanable []
  | plain {byte : UInt8} {rest : Bytes} : ¬ IsControl byte → Cleanable rest → Cleanable (byte :: rest)
  | hidden {byte next : UInt8} {rest : Bytes} : IsControl byte → ¬ (byte = escape ∧ next = bracket) →
      Cleanable rest → Cleanable (byte :: next :: rest)
  | sequence {body rest : Bytes} : letterM ∉ body → Cleanable rest →
      Cleanable (escape :: bracket :: (body ++ letterM :: rest))
  | unfinished {body : Bytes} : letterM ∉ body → Cleanable (escape :: bracket :: body)

theorem clearScan_sequence {body : Bytes} (noLetter : letterM ∉ body) (noNul : 0 ∉ body) (rest : Bytes) :
    clearScan true (body ++ letterM :: rest) = clearScan false rest := by
  induction body with
  | nil => rw [List.nil_append, clearScan, if_neg (by decide)]; simp
  | cons head tail ih =>
    rw [List.mem_cons, not_or] at noLetter noNul
    rw [List.cons_append, clearScan, if_neg (Ne.symm noNul.1), decide_eq_true (Ne.symm noLetter.1)]
    exact ih noLetter.2 noNul.2

theorem clearScan_unfinished {body : Bytes} (noLetter : letterM ∉ body) (noNul : 0 ∉ body) (beyond : Bytes) :
    clearScan true (body ++ 0 :: beyond) = .ok [] := by
  induction body with
  | nil => rw [List.nil_append, clearScan, if_pos rfl]
  | cons head tail ih =>
    rw [List.mem_cons, not_or] at noLetter noNul
    rw [List.cons_append, clearScan, if_neg (Ne.symm noNul.1), decide_eq_true (Ne.symm noLetter.1)]
    exact ih noLetter.2 noNul.2

theorem clearScan_plain {byte : UInt8} (nonzero : byte ≠ 0) (plain : ¬ IsControl byte) (rest beyond : Bytes) :
    clearScan false (byte :: (rest ++ 0 :: beyond)) = (clearScan false (rest ++ 0 :: beyond)).map (byte :: ·) := by
  cases rest with
  | nil => exact clearScan_of_visible nonzero plain
  | cons next rest => exact clearScan_of_visible nonzero plain

theorem clearScan_hidden {byte next : UInt8} (nonzero : byte ≠ 0) (control : IsControl byte)
    (closed : ¬ (byte = escape ∧ next = bracket)) (rest : Bytes) :
    clearScan false (byte :: next :: rest) = (clearScan false rest).map (next :: ·) := by
  rw [clearScan, if_neg nonzero, if_neg closed, if_pos control]

theorem clearScan_opened (rest : Bytes) :
    clearScan false (escape :: bracket :: rest) = clearScan true rest := by
  rw [clearScan, if_neg (by decide), if_pos ⟨rfl, rfl⟩]

theorem clearScan_last {byte : UInt8} (nonzero : byte ≠ 0) (control : IsControl byte) (beyond : Bytes) :
    clearScan false (byte :: 0 :: beyond) = (clearScan false beyond).map (0 :: ·) :=
  clearScan_hidden nonzero control (fun both => absurd both.2 (by decide)) beyond

/-- A control byte alone at the end: the scan goes on behind the terminator. -/
theorem clearScan_lone {byte : UInt8} (nonzero : byte ≠ 0) (control : IsControl byte) :
    clearScan false [byte, 0] = .error .indeterminate := by
  rw [clearScan_last nonzero control]
  rfl

theorem Cleanable.scanned {rest : Bytes} (grammatical : Cleanable rest) (noNul : 0 ∉ rest) :
    ∃ output, ∀ beyond, clearScan false (rest ++ 0 :: beyond) = .ok output := by
  induction grammatical with
  | nil => exact ⟨[], clearScan_terminator⟩
  | @plain byte rest visible _ ih =>
    rw [List.mem_cons, not_or] at noNul
    obtain ⟨output, scanned⟩ := ih noNul.2
    refine ⟨byte :: output, fun beyond => ?_⟩
    rw [List.cons_append, clearScan_plain (Ne.symm noNul.1) visible, scanned]
    rfl
  | @hidden byte next rest control closed _ ih =>
    simp only [List.mem_cons, not_or] at noNul
    obtain ⟨output, scanned⟩ := ih noNul.2.2
    refine ⟨next :: output, fun beyond => ?_⟩
    rw [List.cons_append, List.cons_append, clearScan_hidden (Ne.symm noNul.1) control closed, scanned]
    rfl
  | @sequence body rest noLetter _ ih =>
    simp only [List.mem_cons, List.mem_append, not_or] at noNul
    obtain ⟨output, scanned⟩ := ih noNul.2.2.2.2
    refine ⟨output, fun beyond => ?_⟩
    rw [List.cons_append, List.cons_append, clearScan_opened, List.append_assoc, List.cons_append,
      clearScan_sequence noLetter noNul.2.2.1, scanned]
  | @unfinished body noLetter =>
    simp only [List.mem_cons, not_or] at noNul
    refine ⟨[], fun beyond => ?_⟩
    rw [List.cons_append, List.cons_append, clearScan_opened, clearScan_unfinished noLetter noNul.2.2]

/-- Every string is taken apart from the front: a plain byte, a control byte with the byte
behind it, a sequence as a whole, or what cannot be completed at the end. -/
@[elab_as_elim] theorem pieces_induction {motive : Bytes → Prop} (nil : motive [])
    (plain : ∀ byte rest, ¬ IsControl byte → motive rest → motive (byte :: rest))
    (lone : ∀ byte, IsControl byte → motive [byte])
    (hidden : ∀ byte next rest, IsControl byte → ¬ (byte = escape ∧ next = bracket) → motive rest →
      motive (byte :: next :: rest))
    (sequence : ∀ body rest, letterM ∉ body → motive rest → motive (escape :: bracket :: (body ++ letterM :: rest)))
    (unfinished : ∀ body, letterM ∉ body → motive (escape :: bracket :: body)) (string : Bytes) : motive string := by
  induction length : string.length using Nat.strong_induction_on generalizing string with
  | _ length ih =>
    match string with
    | [] => exact nil
    | byte :: tail =>
      simp only [List.length_cons] at length
      by_cases control : IsControl byte
      · match tail with
        | [] => exact lone byte control
        | next :: rest =>
          simp only [List.length_cons] at length
          by_cases opens : byte = escape ∧ next = bracket
          · obtain ⟨rfl, rfl⟩ := opens
            by_cases letter : letterM ∈ rest
            · obtain ⟨body, later, rfl, noLetter⟩ := List.eq_append_cons_of_mem letter
              simp only [List.length_append, List.length_cons] at length
              exact sequence body later noLetter (ih later.length (by omega) later rfl)
            · exact unfinished rest letter
          · exact hidden byte next rest control opens (ih rest.length (by omega) rest rfl)
      · exact plain byte tail control (ih tail.length (by omega) tail rfl)

theorem cleanable_of_scanned {rest output : Bytes} (noNul : 0 ∉ rest)
    (scanned : clearScan false (rest ++ [0]) = .ok output) : Cleanable rest := by
  induction rest using pieces_induction generalizing output with
  | nil => exact .nil
  | plain byte rest visible ih =>
    rw [List.mem_cons, not_or] at noNul
    rw [List.cons_append, clearScan_plain (Ne.symm noNul.1) visible] at scanned
    obtain ⟨_, later, _⟩ := map_ok_iff.mp scanned
    exact .plain visible (ih noNul.2 later)
  | lone byte control =>
    rw [List.mem_singleton] at noNul
    rw [List.cons_append, List.nil_append, clearScan_lone (Ne.symm noNul) control] at scanned
    cases scanned
  | hidden byte next rest control closed ih =>
    simp only [List.mem_cons, not_or] at noNul
    rw [List.cons_append, List.cons_append, clearScan_hidden (Ne.symm noNul.1) control closed] at scanned
    obtain ⟨_, later, _⟩ := map_ok_iff.mp scanned
    exact .hidden control closed (ih noNul.2.2 later)
  | sequence body rest noLetter ih =>
    simp only [List.mem_cons, List.mem_append, not_or] at noNul
    rw [List.cons_append, List.cons_append, clearScan_opened, List.append_assoc, List.cons_append,
      clearScan_sequence noLetter noNul.2.2.1] at scanned
    exact .sequence noLetter (ih noNul.2.2.2.2 scanned)
  | unfinished body noLetter => exact .unfinished noLetter

theorem cleanable_iff {rest : Bytes} (noNul : 0 ∉ rest) :
    Cleanable rest ↔ ∃ output, clearScan false (rest ++ [0]) = .ok output := by
  constructor
  · intro grammatical
    obtain ⟨output, scanned⟩ := grammatical.scanned noNul
    exact ⟨output, scanned []⟩
  · rintro ⟨output, scanned⟩
    exact cleanable_of_scanned noNul scanned

/-- What the loop sees between two rounds: the text it wrote, bytes it has left behind,
the string still to be scanned with its terminator, and the memory behind. -/
structure Layout where
  written : Bytes
  dropped : Bytes
  rest : Bytes
  beyond : Bytes

def Layout.memory (layout : Layout) : Bytes :=
  layout.written ++ (layout.dropped ++ (layout.rest ++ 0 :: layout.beyond))

def Layout.src (layout : Layout) : Nat := layout.written.length + layout.dropped.length

def Layout.limit (layout : Layout) : Nat := layout.src + layout.rest.length

/-- The scan stands in the layout, and the pure scan of the whole string is what is
written followed by the pure scan of the rest. -/
structure Follows (whole : Except Fault Bytes) (limit : Nat) (scan : Scan) (layout : Layout) : Prop where
  memory : scan.memory = layout.memory
  src : scan.src = layout.src
  dst : scan.dst = layout.written.length
  bound : layout.limit = limit
  text : 0 ∉ layout.written ∧ 0 ∉ layout.rest
  scanned : whole = (clearScan scan.inEscape (layout.rest ++ [0])).map (layout.written ++ ·)
  touched : ∀ address ∈ scan.touched, address ≤ limit

theorem Layout.memory_at (layout : Layout) (offset : Nat) :
    layout.memory[layout.src + offset]? = (layout.rest ++ 0 :: layout.beyond)[offset]? := by
  rw [Layout.memory, Layout.src, List.getElem?_append_right (by omega),
    List.getElem?_append_right (by omega)]
  congr 1
  omega

theorem set_written (written dropped behind : Bytes) (byte copied : UInt8) :
    (written ++ (dropped ++ byte :: behind)).set written.length copied =
      (written ++ [copied]) ++ ((dropped ++ [byte]).tail ++ behind) := by
  rw [List.set_append_right _ _ (Nat.le_refl _), Nat.sub_self]
  cases dropped with
  | nil => simp
  | cons head tail => simp

theorem Scan.read_of_some {scan : Scan} {address : Nat} {byte : UInt8}
    (there : scan.memory[address]? = some byte) :
    scan.read address = .ok (byte, { scan with touched := address :: scan.touched }) := by
  simp [Scan.read, there]

theorem opensEscape_of_some {scan : Scan} (byte : UInt8) {following : UInt8}
    (there : scan.memory[scan.src + 1]? = some following) :
    ∃ touched, scan.opensEscape byte = .ok (decide (byte = escape ∧ following = bracket),
        { scan with touched := touched ++ scan.touched }) ∧ ∀ address ∈ touched, address = scan.src + 1 := by
  by_cases isEscape : byte = escape
  · refine ⟨[scan.src + 1], ?_, by simp⟩
    simp only [Scan.opensEscape, isEscape, if_true, Scan.read_of_some there, true_and]
    rfl
  · refine ⟨[], ?_, by simp⟩
    simp only [Scan.opensEscape, isEscape, if_false, false_and, decide_false, List.nil_append]
    rfl

section Rounds

variable {whole : Except Fault Bytes} {limit : Nat} {scan : Scan} {layout : Layout}

theorem Follows.byte_at (follows : Follows whole limit scan layout) (offset : Nat) :
    scan.memory[scan.src + offset]? = (layout.rest ++ 0 :: layout.beyond)[offset]? := by
  rw [follows.memory, follows.src, layout.memory_at]

theorem Follows.room (follows : Follows whole limit scan layout) : scan.dst < scan.memory.length := by
  rw [follows.memory, follows.dst]
  simp only [Layout.memory, List.length_append, List.length_cons]
  omega

theorem Follows.src_le (follows : Follows whole limit scan layout) : scan.src ≤ limit := by
  rw [follows.src, ← follows.bound, Layout.limit]
  omega

theorem Follows.dst_le (follows : Follows whole limit scan layout) : scan.dst ≤ limit := by
  have behind := follows.src_le
  rw [follows.src, Layout.src] at behind
  rw [follows.dst]
  omega

theorem scanBody_terminator (terminator : scan.memory[scan.src]? = some 0) (room : scan.dst < scan.memory.length) :
    scanBody scan = .ok (.leave { scan with
      memory := scan.memory.set scan.dst 0, touched := scan.dst :: scan.src :: scan.touched }) := by
  simp only [scanBody, Scan.read_of_some terminator, bind, Except.bind, if_true, Scan.write, room]
  rfl

theorem scanBody_inside {byte : UInt8} (there : scan.memory[scan.src]? = some byte) (nonzero : byte ≠ 0)
    (inEscape : scan.inEscape = true) :
    scanBody scan = .ok (.goOn { scan with
      src := scan.src + 1, inEscape := byte ≠ letterM, touched := scan.src :: scan.touched }) := by
  simp only [scanBody, Scan.read_of_some there, bind, Except.bind, if_neg nonzero, inEscape, if_true]
  rfl

theorem scanBody_opened (there : scan.memory[scan.src]? = some escape)
    (following : scan.memory[scan.src + 1]? = some bracket) (outside : scan.inEscape = false) :
    scanBody scan = .ok (.goOn { scan with
      src := scan.src + 2, inEscape := true, touched := (scan.src + 1) :: scan.src :: scan.touched }) := by
  have nonzero : escape ≠ 0 := by decide
  have opens : Scan.opensEscape { scan with touched := scan.src :: scan.touched } escape =
      .ok (true, { scan with touched := (scan.src + 1) :: scan.src :: scan.touched }) := by
    simp only [Scan.opensEscape, if_true, Scan.read, following]
    rfl
  rw [outside] at opens
  simp only [scanBody, Scan.read_of_some there, bind, Except.bind, if_neg nonzero, outside,
    Bool.false_eq_true, if_false, opens, if_true]
  rfl

theorem scanBody_copies {byte following copied : UInt8} (there : scan.memory[scan.src]? = some byte)
    (next : scan.memory[scan.src + 1]? = some following) (nonzero : byte ≠ 0)
    (outside : scan.inEscape = false) (closed : ¬ (byte = escape ∧ following = bracket))
    (source : scan.memory[if IsControl byte then scan.src + 1 else scan.src]? = some copied)
    (room : scan.dst < scan.memory.length) :
    ∃ touched, scanBody scan = .ok (.goOn { scan with
        memory := scan.memory.set scan.dst copied
        src := (if IsControl byte then scan.src + 1 else scan.src) + 1
        dst := scan.dst + 1
        touched := touched ++ scan.touched }) ∧
      ∀ address ∈ touched, address = scan.dst ∨ address = scan.src ∨ address = scan.src + 1 := by
  obtain ⟨peeked, opens, at_src⟩ : ∃ peeked, Scan.opensEscape { scan with touched := scan.src :: scan.touched } byte =
      .ok (decide (byte = escape ∧ following = bracket), { scan with touched := peeked ++ scan.src :: scan.touched }) ∧
      ∀ address ∈ peeked, address = scan.src + 1 := opensEscape_of_some byte next
  rw [decide_eq_false closed] at opens
  refine ⟨scan.dst :: (if IsControl byte then scan.src + 1 else scan.src) :: peeked ++ [scan.src], ?_, ?_⟩
  · simp only [scanBody, Scan.read_of_some there, bind, Except.bind, if_neg nonzero, outside,
      Bool.false_eq_true, if_false]
    rw [outside] at opens
    simp only [opens, Bool.false_eq_true, if_false]
    simp only [Scan.read, source, Scan.write, room, if_true, List.cons_append,
      List.append_assoc, List.nil_append]
    rfl
  · intro address member
    simp only [List.cons_append, List.mem_cons, List.mem_append, List.not_mem_nil, or_false] at member
    rcases member with rfl | rfl | member | rfl
    · exact .inl rfl
    · split
      · exact .inr (.inr rfl)
      · exact .inr (.inl rfl)
    · exact .inr (.inr (at_src address member))
    · exact .inr (.inl rfl)

theorem Follows.leaves (follows : Follows whole limit scan layout) (atEnd : layout.rest = []) :
    whole = .ok layout.written ∧ ∃ final, scanBody scan = .ok (.leave final) ∧
      cString final.memory = layout.written ∧ ∀ address ∈ final.touched, address ≤ limit := by
  have terminator : scan.memory[scan.src]? = some 0 := by simpa [atEnd] using follows.byte_at 0
  refine ⟨?_, _, scanBody_terminator terminator follows.room, ?_, ?_⟩
  · have scanned := follows.scanned
    rw [atEnd, List.nil_append] at scanned
    cases inEscape : scan.inEscape <;> simpa [inEscape, clearScan, Except.map] using scanned
  · have stored : scan.memory.set scan.dst 0 = layout.written ++ ([0] ++ ((layout.dropped ++ [0]).tail ++ layout.beyond)) := by
      rw [follows.memory, follows.dst, Layout.memory, atEnd, List.nil_append, set_written, List.append_assoc]
    show cString (scan.memory.set scan.dst 0) = layout.written
    rw [stored]
    exact cString_stored follows.text.1 _
  · intro address member
    rcases List.mem_cons.mp member with rfl | member
    · exact follows.dst_le
    · rcases List.mem_cons.mp member with rfl | member
      · exact follows.src_le
      · exact follows.touched address member

theorem Follows.drops (follows : Follows whole limit scan layout) (front : Bytes) (next : Scan) {tail : Bytes}
    (split : layout.rest = front ++ tail) (memory : next.memory = scan.memory)
    (src : next.src = scan.src + front.length) (dst : next.dst = scan.dst)
    (scanned : clearScan scan.inEscape (layout.rest ++ [0]) = clearScan next.inEscape (tail ++ [0]))
    (touched : ∀ address ∈ next.touched, address ≤ limit) :
    Follows whole limit next { layout with dropped := layout.dropped ++ front, rest := tail } where
  memory := by simp [memory, follows.memory, Layout.memory, split]
  src := by simp [src, follows.src, Layout.src, Nat.add_assoc]
  dst := by rw [dst, follows.dst]
  bound := by
    rw [← follows.bound]
    simp only [Layout.limit, Layout.src, split, List.length_append]
    omega
  text := ⟨follows.text.1, fun zero => follows.text.2 (by rw [split]; exact List.mem_append_right _ zero)⟩
  scanned := by rw [follows.scanned, scanned]
  touched := touched

theorem Follows.copies (follows : Follows whole limit scan layout) (extra : Bytes) (next : Scan)
    {byte copied : UInt8} {tail : Bytes} (split : layout.rest = byte :: (extra ++ tail)) (nonzero : copied ≠ 0)
    (memory : next.memory = scan.memory.set scan.dst copied)
    (src : next.src = scan.src + extra.length + 1) (dst : next.dst = scan.dst + 1)
    (scanned : clearScan scan.inEscape (layout.rest ++ [0]) =
      (clearScan next.inEscape (tail ++ [0])).map (copied :: ·))
    (touched : ∀ address ∈ next.touched, address ≤ limit) :
    Follows whole limit next { layout with
      written := layout.written ++ [copied], dropped := (layout.dropped ++ [byte]).tail ++ extra, rest := tail } where
  memory := by
    rw [memory, follows.memory, follows.dst, Layout.memory, split, List.cons_append, set_written, Layout.memory]
    simp only [List.append_assoc]
  src := by
    simp only [src, follows.src, Layout.src, List.length_append, List.length_tail, List.length_cons, List.length_nil]
    omega
  dst := by simp [dst, follows.dst]
  bound := by
    rw [← follows.bound]
    simp only [Layout.limit, Layout.src, split, List.length_append, List.length_tail, List.length_cons,
      List.length_nil]
    omega
  text := by
    constructor
    · rw [List.mem_append, List.mem_singleton, not_or]
      exact ⟨follows.text.1, Ne.symm nonzero⟩
    · intro zero
      exact follows.text.2 (by rw [split]; exact List.mem_cons_of_mem _ (List.mem_append_right _ zero))
  scanned := by
    rw [follows.scanned, scanned]
    cases clearScan next.inEscape (tail ++ [0]) <;> simp [Except.map]
  touched := touched

def Advances (whole : Except Fault Bytes) (limit : Nat) (scan : Scan) (layout : Layout) : Prop :=
  ∃ next later, scanBody scan = .ok (.goOn next) ∧ Follows whole limit next later ∧
    later.rest.length < layout.rest.length

theorem Follows.touched_src (follows : Follows whole limit scan layout) :
    ∀ address ∈ scan.src :: scan.touched, address ≤ limit := by
  intro address member
  rcases List.mem_cons.mp member with rfl | member
  · exact follows.src_le
  · exact follows.touched address member

theorem Follows.src_lt {byte : UInt8} {tail : Bytes} (follows : Follows whole limit scan layout)
    (shape : layout.rest = byte :: tail) : scan.src + 1 ≤ limit := by
  rw [follows.src, ← follows.bound, Layout.limit, shape, List.length_cons]
  omega

theorem Follows.advances_inside {byte : UInt8} {tail : Bytes} (follows : Follows whole limit scan layout)
    (shape : layout.rest = byte :: tail) (nonzero : byte ≠ 0) (inEscape : scan.inEscape = true) :
    Advances whole limit scan layout := by
  have there : scan.memory[scan.src]? = some byte := by simpa [shape] using follows.byte_at 0
  have scanned : clearScan scan.inEscape (layout.rest ++ [0]) = clearScan (byte ≠ letterM) (tail ++ [0]) := by
    rw [shape, inEscape, List.cons_append, clearScan, if_neg nonzero]
  have later := follows.drops [byte]
    { scan with src := scan.src + 1, inEscape := byte ≠ letterM, touched := scan.src :: scan.touched }
    shape rfl rfl rfl scanned follows.touched_src
  exact ⟨_, _, scanBody_inside there nonzero inEscape, later, by rw [shape]; exact Nat.lt_succ_self _⟩

theorem Follows.advances_opened {tail : Bytes} (follows : Follows whole limit scan layout)
    (shape : layout.rest = escape :: bracket :: tail) (outside : scan.inEscape = false) :
    Advances whole limit scan layout := by
  have there : scan.memory[scan.src]? = some escape := by simpa [shape] using follows.byte_at 0
  have following : scan.memory[scan.src + 1]? = some bracket := by simpa [shape] using follows.byte_at 1
  have scanned : clearScan scan.inEscape (layout.rest ++ [0]) = clearScan true (tail ++ [0]) := by
    rw [shape, outside, List.cons_append, List.cons_append, clearScan_opened]
  have touched : ∀ address ∈ (scan.src + 1) :: scan.src :: scan.touched, address ≤ limit := by
    intro address member
    rcases List.mem_cons.mp member with rfl | member
    · exact follows.src_lt shape
    · exact follows.touched_src address member
  have later := follows.drops [escape, bracket]
    { scan with src := scan.src + 2, inEscape := true, touched := (scan.src + 1) :: scan.src :: scan.touched }
    shape rfl rfl rfl scanned touched
  refine ⟨_, _, scanBody_opened there following outside, later, ?_⟩
  show tail.length < layout.rest.length
  rw [shape, List.length_cons, List.length_cons]
  omega

theorem Follows.touched_copy {byte : UInt8} {tail : Bytes} {touched : List Nat}
    (follows : Follows whole limit scan layout) (shape : layout.rest = byte :: tail)
    (near : ∀ address ∈ touched, address = scan.dst ∨ address = scan.src ∨ address = scan.src + 1) :
    ∀ address ∈ touched ++ scan.touched, address ≤ limit := by
  intro address member
  rcases List.mem_append.mp member with member | member
  · rcases near address member with rfl | rfl | rfl
    · exact follows.dst_le
    · exact follows.src_le
    · exact follows.src_lt shape
  · exact follows.touched address member

theorem Follows.advances_plain {byte : UInt8} {tail : Bytes} (follows : Follows whole limit scan layout)
    (shape : layout.rest = byte :: tail) (nonzero : byte ≠ 0) (plain : ¬ IsControl byte)
    (outside : scan.inEscape = false) : Advances whole limit scan layout := by
  have there : scan.memory[scan.src]? = some byte := by simpa [shape] using follows.byte_at 0
  obtain ⟨following, next⟩ : ∃ following, scan.memory[scan.src + 1]? = some following := by
    rw [follows.byte_at 1, shape]
    cases tail with
    | nil => exact ⟨0, rfl⟩
    | cons following _ => exact ⟨following, rfl⟩
  have closed : ¬ (byte = escape ∧ following = bracket) := by
    rintro ⟨rfl, _⟩
    exact plain (by decide)
  have source : scan.memory[if IsControl byte then scan.src + 1 else scan.src]? = some byte := by
    rw [if_neg plain]
    exact there
  obtain ⟨touched, taken, near⟩ := scanBody_copies there next nonzero outside closed source follows.room
  rw [if_neg plain] at taken
  have scanned : clearScan scan.inEscape (layout.rest ++ [0]) = (clearScan scan.inEscape (tail ++ [0])).map (byte :: ·) := by
    rw [shape, outside, List.cons_append, clearScan_plain nonzero plain]
  have later := follows.copies []
    { scan with
      memory := scan.memory.set scan.dst byte, src := scan.src + 1, dst := scan.dst + 1
      touched := touched ++ scan.touched }
    shape nonzero rfl rfl rfl scanned (follows.touched_copy shape near)
  exact ⟨_, _, taken, later, by rw [shape]; exact Nat.lt_succ_self _⟩

theorem Follows.advances_hidden {byte following : UInt8} {tail : Bytes}
    (follows : Follows whole limit scan layout) (shape : layout.rest = byte :: following :: tail)
    (nonzero : byte ≠ 0) (control : IsControl byte) (closed : ¬ (byte = escape ∧ following = bracket))
    (outside : scan.inEscape = false) : Advances whole limit scan layout := by
  have noNul := follows.text.2
  simp only [shape, List.mem_cons, not_or] at noNul
  have there : scan.memory[scan.src]? = some byte := by simpa [shape] using follows.byte_at 0
  have next : scan.memory[scan.src + 1]? = some following := by simpa [shape] using follows.byte_at 1
  have source : scan.memory[if IsControl byte then scan.src + 1 else scan.src]? = some following := by
    rw [if_pos control]
    exact next
  obtain ⟨touched, taken, near⟩ := scanBody_copies there next nonzero outside closed source follows.room
  rw [if_pos control] at taken
  have scanned : clearScan scan.inEscape (layout.rest ++ [0]) =
      (clearScan scan.inEscape (tail ++ [0])).map (following :: ·) := by
    rw [shape, outside, List.cons_append, List.cons_append, clearScan_hidden nonzero control closed]
  have later := follows.copies [following]
    { scan with
      memory := scan.memory.set scan.dst following, src := scan.src + 1 + 1, dst := scan.dst + 1
      touched := touched ++ scan.touched }
    shape (Ne.symm noNul.2.1) rfl rfl rfl scanned (follows.touched_copy shape near)
  refine ⟨_, _, taken, later, ?_⟩
  show tail.length < layout.rest.length
  rw [shape, List.length_cons, List.length_cons]
  omega

theorem Follows.passes {byte : UInt8} (follows : Follows whole limit scan layout) (shape : layout.rest = [byte])
    (nonzero : byte ≠ 0) (control : IsControl byte) (outside : scan.inEscape = false) :
    whole = .error .indeterminate ∧ ∃ next, scanBody scan = .ok (.goOn next) ∧ limit < next.src := by
  have there : scan.memory[scan.src]? = some byte := by simpa [shape] using follows.byte_at 0
  have next : scan.memory[scan.src + 1]? = some 0 := by simpa [shape] using follows.byte_at 1
  have closed : ¬ (byte = escape ∧ (0 : UInt8) = bracket) := fun both => absurd both.2 (by decide)
  have source : scan.memory[if IsControl byte then scan.src + 1 else scan.src]? = some 0 := by
    rw [if_pos control]
    exact next
  obtain ⟨touched, taken, _⟩ := scanBody_copies there next nonzero outside closed source follows.room
  rw [if_pos control] at taken
  refine ⟨?_, _, taken, ?_⟩
  · have scanned := follows.scanned
    rw [shape, outside, List.cons_append, List.nil_append, clearScan_lone nonzero control] at scanned
    exact scanned
  · show limit < scan.src + 1 + 1
    rw [follows.src, ← follows.bound, Layout.limit, shape, List.length_singleton]
    omega

/-- One round: it leaves with the text of the pure scan, or goes on in a layout, or
passes the terminator, and then the pure scan fails. -/
theorem Follows.round (follows : Follows whole limit scan layout) :
    (whole = .ok layout.written ∧ ∃ final, scanBody scan = .ok (.leave final) ∧
      cString final.memory = layout.written ∧ ∀ address ∈ final.touched, address ≤ limit) ∨
    (whole = .error .indeterminate ∧ ∃ next, scanBody scan = .ok (.goOn next) ∧ limit < next.src) ∨
    Advances whole limit scan layout := by
  match shape : layout.rest with
  | [] => exact .inl (follows.leaves shape)
  | byte :: tail =>
    have noNul := follows.text.2
    rw [shape, List.mem_cons, not_or] at noNul
    have nonzero : byte ≠ 0 := Ne.symm noNul.1
    cases inEscape : scan.inEscape with
    | true => exact .inr (.inr (follows.advances_inside shape nonzero inEscape))
    | false =>
      by_cases control : IsControl byte
      · match tail, shape with
        | [], shape => exact .inr (.inl (follows.passes shape nonzero control inEscape))
        | following :: rest, shape =>
          by_cases opens : byte = escape ∧ following = bracket
          · obtain ⟨rfl, rfl⟩ := opens
            exact .inr (.inr (follows.advances_opened shape inEscape))
          · exact .inr (.inr (follows.advances_hidden shape nonzero control opens inEscape))
      · exact .inr (.inr (follows.advances_plain shape nonzero control inEscape))

end Rounds

def behind (byte : UInt8) (string : Bytes) : List Bytes :=
  match string.dropWhile (· ≠ byte) with
  | [] => []
  | _ :: rest => [rest]

def textsBehind (string : Bytes) : List Bytes :=
  behind hash (string.takeWhile (· ≠ tilde)) ++ behind tilde string

def terminated (texts : List Bytes) : Bytes := texts.flatMap (· ++ [0])

theorem terminateAt_behind (byte : UInt8) {string : Bytes} (noNul : 0 ∉ string) (following : Bytes) :
    terminateAt byte (string ++ 0 :: following) =
      string.takeWhile (· ≠ byte) ++ 0 :: (terminated (behind byte string) ++ following) := by
  induction string with
  | nil => rw [List.nil_append, terminateAt, if_pos rfl]; rfl
  | cons head tail ih =>
    rw [List.mem_cons, not_or] at noNul
    rw [List.cons_append, terminateAt, if_neg (Ne.symm noNul.1)]
    by_cases found : head = byte
    · simp [found, behind, terminated]
    · rw [if_neg found, ih noNul.2]
      simp [found, behind]

theorem memory_scanStart {string : Bytes} (noNul : 0 ∉ string) (following : Bytes) :
    (scanStart (string ++ 0 :: following)).memory =
      beforePrompt string ++ 0 :: (terminated (textsBehind string) ++ following) := by
  have noNulTilde : 0 ∉ string.takeWhile (· ≠ tilde) := fun zero => noNul (List.takeWhile_subset _ zero)
  rw [scanStart, terminateAt_behind tilde noNul, terminateAt_behind hash noNulTilde, beforePrompt, textsBehind,
    terminated, terminated, terminated, List.flatMap_append, List.append_assoc]

theorem noNul_beforePrompt {string : Bytes} (noNul : 0 ∉ string) : 0 ∉ beforePrompt string := fun zero =>
  noNul (List.takeWhile_subset _ (List.takeWhile_subset _ zero))

theorem scanStart_follows {string : Bytes} (noNul : 0 ∉ string) (following : Bytes) :
    ∃ beyond, Follows (clearScan false (beforePrompt string ++ [0])) (beforePrompt string).length
        (scanStart (string ++ 0 :: following)) ⟨[], [], beforePrompt string, beyond⟩ ∧
      (scanStart (string ++ 0 :: following)).memory = beforePrompt string ++ 0 :: beyond := by
  refine ⟨_, ?_, memory_scanStart noNul following⟩
  exact {
    memory := memory_scanStart noNul following
    src := rfl
    dst := rfl
    bound := Nat.zero_add _
    text := ⟨List.not_mem_nil, noNul_beforePrompt noNul⟩
    scanned := by
      show _ = (clearScan false (beforePrompt string ++ [0])).map id
      cases clearScan false (beforePrompt string ++ [0]) <;> rfl
    touched := fun address member => absurd member List.not_mem_nil }

section Loop

variable {whole : Except Fault Bytes} {limit : Nat} {start : Scan} {layout : Layout}

theorem Follows.exits (follows : Follows whole limit start layout) :
    (∃ output final, whole = .ok output ∧ Returns scanBody start final ∧ cString final.memory = output ∧
      ∀ address ∈ final.touched, address ≤ limit) ∨
    (whole = .error .indeterminate ∧ ∃ scan, Reaches scanBody start scan ∧ limit < scan.src) := by
  let leaves (scan : Scan) : Prop := ∃ output final, whole = .ok output ∧ scanBody scan = .ok (.leave final) ∧
    cString final.memory = output ∧ ∀ address ∈ final.touched, address ≤ limit
  let passes (scan : Scan) : Prop :=
    whole = .error .indeterminate ∧ ∃ next, scanBody scan = .ok (.goOn next) ∧ limit < next.src
  have progress (scan : Scan) (holds : ∃ layout, Follows whole limit scan layout) :
      (leaves scan ∨ passes scan) ∨ ∃ next, scanBody scan = .ok (.goOn next) ∧
        (∃ layout, Follows whole limit next layout) ∧ limit - next.src < limit - scan.src := by
    obtain ⟨layout, follows⟩ := holds
    rcases follows.round with ⟨scanned, final, left, text, touched⟩ | passed | ⟨next, later, taken, followsNext, less⟩
    · exact .inl (.inl ⟨_, final, scanned, left, text, touched⟩)
    · exact .inl (.inr passed)
    · refine .inr ⟨next, taken, ⟨later, followsNext⟩, ?_⟩
      have here := follows.bound
      have there := followsNext.bound
      rw [Layout.limit, ← follows.src] at here
      rw [Layout.limit, ← followsNext.src] at there
      omega
  obtain ⟨last, reached, -, left | passed⟩ := Reaches.exit (fun scan => ∃ layout, Follows whole limit scan layout)
    (fun scan => leaves scan ∨ passes scan) (fun scan => limit - scan.src) progress ⟨layout, follows⟩
  · obtain ⟨output, final, scanned, taken, text, touched⟩ := left
    exact .inl ⟨output, final, scanned, ⟨last, reached, taken⟩, text, touched⟩
  · obtain ⟨failed, next, taken, behind⟩ := passed
    exact .inr ⟨failed, next, reached.next taken, behind⟩

theorem Follows.reaches {output : Bytes} (follows : Follows (.ok output) limit start layout) {scan : Scan}
    (reached : Reaches scanBody start scan) : ∃ later, Follows (.ok output) limit scan later := by
  refine reached.invariant (fun scan => ∃ later, Follows (.ok output) limit scan later) ?_ ⟨layout, follows⟩
  rintro scan next ⟨layout, follows⟩ taken
  rcases follows.round with ⟨_, final, left, _⟩ | ⟨failed, _⟩ | ⟨found, later, goes, followsNext, _⟩
  · rw [left] at taken
    cases taken
  · cases failed
  · rw [goes] at taken
    cases taken
    exact ⟨later, followsNext⟩

end Loop

theorem limit_scanStart {string : Bytes} (noNul : 0 ∉ string) (following : Bytes) :
    (cString (scanStart (string ++ 0 :: following)).memory).length = (beforePrompt string).length := by
  obtain ⟨beyond, -, memory⟩ := scanStart_follows noNul following
  rw [memory, cString_stored (noNul_beforePrompt noNul)]

/-- A string that the grammar does not cover sends `src` past its terminator. -/
theorem passes_of_not_cleanable {string : Bytes} (noNul : 0 ∉ string) (following : Bytes)
    (outside : ¬ Cleanable (beforePrompt string)) :
    ∃ scan, Reaches scanBody (scanStart (string ++ 0 :: following)) scan ∧
      (beforePrompt string).length < scan.src := by
  obtain ⟨beyond, follows, -⟩ := scanStart_follows noNul following
  rcases follows.exits with ⟨output, _, scanned, _⟩ | ⟨_, passed⟩
  · exact absurd ((cleanable_iff (noNul_beforePrompt noNul)).mpr ⟨output, scanned⟩) outside
  · exact passed

theorem clearScan_refined {string : Bytes} (noNul : 0 ∉ string) (following : Bytes)
    (grammatical : Cleanable (beforePrompt string)) :
    ∃ final, Returns scanBody (scanStart (string ++ 0 :: following)) final ∧
      clearScan false (scanStart (string ++ 0 :: following)).memory = .ok (cString final.memory) ∧
      ∀ address ∈ final.touched, address ≤ (beforePrompt string).length := by
  obtain ⟨beyond, follows, memory⟩ := scanStart_follows noNul following
  obtain ⟨output, scanned⟩ := grammatical.scanned (noNul_beforePrompt noNul)
  rcases follows.exits with ⟨_, final, text, returned, same, touched⟩ | ⟨failed, _⟩
  · refine ⟨final, returned, ?_, touched⟩
    rw [scanned] at text
    cases text
    rw [memory, scanned, same]
  · rw [scanned] at failed
    cases failed

/-- The loop of `clear_str` stays inside its string exactly on the strings of the grammar. -/
theorem staysInside_iff (string following : Bytes) (noNul : 0 ∉ string) :
    StaysInside (scanStart (string ++ 0 :: following)) ↔ Cleanable (beforePrompt string) := by
  constructor
  · intro stays
    by_contra outside
    obtain ⟨scan, reached, behind⟩ := passes_of_not_cleanable noNul following outside
    have within := (stays.inside scan reached).1
    rw [limit_scanStart noNul following] at within
    omega
  · intro grammatical
    obtain ⟨beyond, follows, -⟩ := scanStart_follows noNul following
    obtain ⟨output, scanned⟩ := (cleanable_iff (noNul_beforePrompt noNul)).mp grammatical
    rw [scanned] at follows
    constructor
    · intro scan reached
      obtain ⟨later, followsLater⟩ := follows.reaches reached
      rw [limit_scanStart noNul following]
      exact ⟨followsLater.src_le, followsLater.touched⟩
    · obtain ⟨final, returned, -, touched⟩ := clearScan_refined noNul following grammatical
      rw [limit_scanStart noNul following]
      exact ⟨final, returned, touched⟩

def redHello : Bytes := text "\x1b[31mHello\x1b[0m World"

theorem redHello_staysInside : StaysInside (scanStart (redHello ++ 0 :: [])) := by
  apply (staysInside_iff redHello [] (by decide)).mpr
  refine (cleanable_iff (by decide)).mpr ⟨text "Hello World", by decide⟩

def bellLine : Bytes := text "Line1\n\x1b[1mLine2\x1b[0m\r\nLine3\x07"

theorem bellLine_not_staysInside : 0 ∉ bellLine ∧ ¬ StaysInside (scanStart (bellLine ++ 0 :: [])) := by
  have noNul : 0 ∉ bellLine := by decide
  refine ⟨noNul, fun stays => ?_⟩
  have lone : clearScan false (beforePrompt bellLine ++ [0]) = .error .indeterminate := by decide
  obtain ⟨scan, reached, behind⟩ := passes_of_not_cleanable noNul [] (by
    intro grammatical
    obtain ⟨output, scanned⟩ := (cleanable_iff (noNul_beforePrompt noNul)).mp grammatical
    rw [lone] at scanned
    cases scanned)
  have within := (stays.inside scan reached).1
  rw [limit_scanStart noNul []] at within
  omega

end Trigger.Terminal
