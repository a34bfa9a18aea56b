import Trigger.Foundation.Runs
import Trigger.Terminal.Console
import Mathlib.Data.List.Chain
import Mathlib.Data.List.TakeWhile

/-! Which output streams read the same however the pipe is chunked.

Every chunk is cleaned by itself, so what spans two chunks is lost: the escape
state, the byte a control byte hides, and the cut at a prompt.
-/

set_option autoImplicit false

namespace Trigger.Terminal
open Foundation

variable {K : Type}

def readChunks (session : Session K) (chunks : List Bytes) : Except Fault (Session K) :=
  run (fun session chunk => engineUpdateConsole session (.bytes chunk)) session chunks

structure Splits (stream : Bytes) (chunks : List Bytes) : Prop where
  whole : chunks.flatten = stream
  sizes : ∀ chunk ∈ chunks, 1 ≤ chunk.length ∧ chunk.length ≤ 1023

/-- Any two ways to split the stream leave the same text. -/
def ChunkingIndependent (session : Session K) (stream : Bytes) : Prop :=
  ∀ first second, Splits stream first → Splits stream second →
    ∃ final other, readChunks session first = .ok final ∧ readChunks session second = .ok other ∧
      final.console.outputBuf = other.console.outputBuf

def IsMarker (byte : UInt8) : Prop := byte = tilde ∨ byte = hash

instance (byte : UInt8) : Decidable (IsMarker byte) := inferInstanceAs (Decidable (_ ∨ _))

/-- No control byte, and behind a prompt marker nothing but markers. -/
structure Seamless (stream : Bytes) : Prop where
  plain : ∀ byte ∈ stream, ¬ IsControl byte
  markers : stream.Pairwise fun first second => IsMarker first → IsMarker second

def visible (chunk : Bytes) : Bytes := chunk.filter fun byte => ¬ IsMarker byte

theorem terminated_ne_nil (chunk : Bytes) :
    ∃ next rest, terminateAt hash (terminateAt tilde (chunk ++ [0])) = next :: rest := by
  cases chunk with
  | nil => exact ⟨0, [], rfl⟩
  | cons head tail =>
    rw [List.cons_append, terminateAt]
    split
    · rename_i zero
      exact ⟨head, _, by rw [terminateAt, if_pos zero]⟩
    · split
      · exact ⟨0, _, by rw [terminateAt, if_pos rfl]⟩
      · rw [terminateAt]
        split
        · exact ⟨_, _, rfl⟩
        · split
          · exact ⟨_, _, rfl⟩
          · exact ⟨_, _, rfl⟩

theorem clearScan_terminator (rest : Bytes) : clearScan false (0 :: rest) = .ok [] := by
  cases rest <;> simp [clearScan]

theorem not_control_of_marker {byte : UInt8} (marker : IsMarker byte) : ¬ IsControl byte := by
  rcases marker with rfl | rfl <;> decide

theorem clearScan_of_visible {byte next : UInt8} {rest : Bytes} (nonzero : byte ≠ 0)
    (plain : ¬ IsControl byte) :
    clearScan false (byte :: next :: rest) = (clearScan false (next :: rest)).map (byte :: ·) := by
  have notEscape : byte ≠ escape := by
    rintro rfl
    exact plain (by decide)
  rw [clearScan, if_neg nonzero, if_neg (fun both => notEscape both.1), if_neg plain]

theorem clearStr_of_seamless {chunk : Bytes} (seamless : Seamless chunk) (noNul : 0 ∉ chunk) :
    clearStr chunk = .ok (visible chunk) := by
  have scanned : clearScan false (terminateAt hash (terminateAt tilde (chunk ++ [0]))) =
      .ok (visible chunk) := by
    induction chunk with
    | nil => rfl
    | cons head tail ih =>
      obtain ⟨plain, markers⟩ := seamless
      rw [List.pairwise_cons] at markers
      rw [List.mem_cons, not_or] at noNul
      have nonzero : head ≠ 0 := Ne.symm noNul.1
      by_cases marker : IsMarker head
      · have none : visible (head :: tail) = [] := by
          refine List.filter_eq_nil_iff.mpr fun byte member => ?_
          rcases List.mem_cons.mp member with rfl | later
          · simpa using marker
          · simpa using markers.1 byte later marker
        rw [none]
        rcases marker with rfl | rfl
        · exact clearScan_terminator _
        · exact clearScan_terminator _
      · have scannedTail := ih ⟨fun byte later => plain byte (List.mem_cons_of_mem _ later), markers.2⟩
          noNul.2
        obtain ⟨next, rest, shape⟩ := terminated_ne_nil tail
        have notTilde : head ≠ tilde := fun same => marker (.inl same)
        have notHash : head ≠ hash := fun same => marker (.inr same)
        rw [List.cons_append, terminateAt, if_neg nonzero, if_neg notTilde, terminateAt, if_neg nonzero,
          if_neg notHash, shape, clearScan_of_visible nonzero (plain head (List.mem_cons_self ..)),
          ← shape, scannedTail]
        simp [visible, marker, Except.map]
  have noNulLeft : 0 ∉ visible chunk := fun member => noNul (List.mem_of_mem_filter member)
  rw [clearStr, scanned, Except.map, cString_of_no_nul noNulLeft]

/-- A control byte at the end of its chunk makes the scan pass the terminator. -/
theorem clearStr_control {byte : UInt8} (control : IsControl byte) (nonzero : byte ≠ 0) :
    clearStr [byte] = .error .indeterminate := by
  have notTilde : byte ≠ tilde := fun same => not_control_of_marker (.inl same) control
  have notHash : byte ≠ hash := fun same => not_control_of_marker (.inr same) control
  have notBracket : ¬ (byte = escape ∧ (0 : UInt8) = bracket) := fun both => absurd both.2 (by decide)
  simp [clearStr, terminateAt, nonzero, notTilde, notHash, clearScan, notBracket, control, Except.map]

theorem clearStr_marker {marker : UInt8} (isMarker : IsMarker marker) (rest : Bytes) :
    clearStr (marker :: rest) = .ok [] := by
  have cut : clearScan false (terminateAt hash (terminateAt tilde (marker :: rest ++ [0]))) = .ok [] := by
    rcases isMarker with rfl | rfl
    · exact clearScan_terminator _
    · exact clearScan_terminator _
  rw [clearStr, cut]
  rfl

theorem engineUpdateConsole_bytes {session : Session K} {chunk text : Bytes}
    (cleaned : clearStr chunk = .ok text)
    (tracked : session.console.outputBuf.val.length ≤ session.console.outputLen)
    (room : session.console.outputLen + text.length < bufsiz - 1) :
    ∃ next, engineUpdateConsole session (.bytes chunk) = .ok next ∧
      next.console.outputBuf.val = session.console.outputBuf.val ++ text ∧
      next.console.outputLen = session.console.outputLen + text.length := by
  have fits : (session.console.outputBuf.val ++ text).length < bufsiz := by
    rw [List.length_append]
    omega
  have appended : appendOutput session.console chunk = .ok { session.console with
      outputBuf := ⟨session.console.outputBuf.val ++ text, fits⟩
      outputLen := session.console.outputLen + text.length } := by
    refine bind_ok_iff.mpr ⟨text, cleaned, ?_⟩
    rw [if_pos room, strcat, strcpy_of_fits fits]
    rfl
  exact ⟨_, bind_ok_iff.mpr ⟨_, appended, rfl⟩, rfl, rfl⟩

theorem readChunks_eq {session : Session K} {chunks cleaned : List Bytes}
    (each : List.Forall₂ (fun chunk text => clearStr chunk = .ok text) chunks cleaned)
    (tracked : session.console.outputBuf.val.length ≤ session.console.outputLen)
    (room : session.console.outputLen + cleaned.flatten.length < bufsiz - 1) :
    ∃ final, readChunks session chunks = .ok final ∧
      final.console.outputBuf.val = session.console.outputBuf.val ++ cleaned.flatten := by
  induction each generalizing session with
  | nil => exact ⟨session, rfl, (List.append_nil _).symm⟩
  | @cons chunk text chunks cleaned found _ ih =>
    rw [List.flatten_cons, List.length_append] at room
    obtain ⟨next, taken, buffer, length⟩ := engineUpdateConsole_bytes found tracked (by omega)
    have nextTracked : next.console.outputBuf.val.length ≤ next.console.outputLen := by
      rw [buffer, length, List.length_append]
      omega
    obtain ⟨final, read, left⟩ := ih nextTracked (by omega)
    refine ⟨final, run_cons_ok_iff.mpr ⟨next, taken, read⟩, ?_⟩
    rw [left, buffer, List.flatten_cons, List.append_assoc]

theorem texts_of_independent {session : Session K} {stream : Bytes} {first second firstTexts secondTexts : List Bytes}
    (independent : ChunkingIndependent session stream)
    (tracked : session.console.outputBuf.val.length ≤ session.console.outputLen)
    (firstSplits : Splits stream first) (secondSplits : Splits stream second)
    (firstEach : List.Forall₂ (fun chunk text => clearStr chunk = .ok text) first firstTexts)
    (secondEach : List.Forall₂ (fun chunk text => clearStr chunk = .ok text) second secondTexts)
    (firstRoom : session.console.outputLen + firstTexts.flatten.length < bufsiz - 1)
    (secondRoom : session.console.outputLen + secondTexts.flatten.length < bufsiz - 1) :
    firstTexts.flatten = secondTexts.flatten := by
  obtain ⟨final, read, left⟩ := readChunks_eq firstEach tracked firstRoom
  obtain ⟨other, otherRead, otherLeft⟩ := readChunks_eq secondEach tracked secondRoom
  obtain ⟨final', other', read', otherRead', same⟩ := independent _ _ firstSplits secondSplits
  cases read.symm.trans read'
  cases otherRead.symm.trans otherRead'
  have texts := (left.symm.trans (congrArg Subtype.val same)).trans otherLeft
  exact List.append_cancel_left texts

theorem clearStr_ok_of_readChunks {session final : Session K} {chunks : List Bytes}
    (read : readChunks session chunks = .ok final) : ∀ chunk ∈ chunks, ∃ text, clearStr chunk = .ok text := by
  induction chunks generalizing session with
  | nil => simp
  | cons chunk rest ih =>
    obtain ⟨next, taken, remaining⟩ := run_cons_ok_iff.mp read
    obtain ⟨console, appended, -⟩ := bind_ok_iff.mp taken
    obtain ⟨text, cleaned, -⟩ := bind_ok_iff.mp appended
    exact List.forall_mem_cons.mpr ⟨⟨text, cleaned⟩, ih remaining⟩

theorem Seamless.of_sublist {stream chunk : Bytes} (seamless : Seamless stream)
    (sublist : chunk.Sublist stream) : Seamless chunk :=
  ⟨fun byte member => seamless.plain byte (sublist.subset member), seamless.markers.sublist sublist⟩

theorem visible_flatten (chunks : List Bytes) : (chunks.map visible).flatten = visible chunks.flatten :=
  (List.filter_flatten ..).symm

theorem readChunks_of_seamless {session : Session K} {stream : Bytes} {chunks : List Bytes}
    (seamless : Seamless stream) (noNul : 0 ∉ stream)
    (tracked : session.console.outputBuf.val.length ≤ session.console.outputLen)
    (room : session.console.outputLen + stream.length < bufsiz - 1) (splits : Splits stream chunks) :
    ∃ final, readChunks session chunks = .ok final ∧
      final.console.outputBuf.val = session.console.outputBuf.val ++ visible stream := by
  have each : List.Forall₂ (fun chunk text => clearStr chunk = .ok text) chunks (chunks.map visible) := by
    rw [List.forall₂_map_right_iff, List.forall₂_same]
    intro chunk member
    have inside : chunk.Sublist stream := splits.whole ▸ List.sublist_flatten_of_mem member
    exact clearStr_of_seamless (seamless.of_sublist inside) fun nul => noNul (inside.subset nul)
  -- Cleaning only removes bytes, so the text fits where the stream does.
  have shorter : (chunks.map visible).flatten.length ≤ stream.length := by
    rw [visible_flatten, splits.whole]
    exact List.length_filter_le ..
  obtain ⟨final, read, left⟩ := readChunks_eq each tracked (by omega)
  exact ⟨final, read, by rw [left, visible_flatten, splits.whole]⟩

/-! ## Streams that do not read the same -/

def singles (stream : Bytes) : List Bytes := stream.map fun byte => [byte]

theorem flatten_singles (stream : Bytes) : (singles stream).flatten = stream := by
  induction stream with
  | nil => rfl
  | cons head tail ih => simpa [singles] using ih

theorem singles_sizes (stream : Bytes) : ∀ chunk ∈ singles stream, 1 ≤ chunk.length ∧ chunk.length ≤ 1023 := by
  intro chunk member
  obtain ⟨byte, -, rfl⟩ := List.mem_map.mp member
  simp

theorem plain_of_independent {session : Session K} {stream : Bytes} (noNul : 0 ∉ stream)
    (independent : ChunkingIndependent session stream) : ∀ byte ∈ stream, ¬ IsControl byte := by
  intro byte member control
  have splits : Splits stream (singles stream) := ⟨flatten_singles stream, singles_sizes stream⟩
  obtain ⟨final, -, read, -, -⟩ := independent _ _ splits splits
  obtain ⟨text, cleaned⟩ := clearStr_ok_of_readChunks read [byte] (List.mem_map.mpr ⟨byte, member, rfl⟩)
  rw [clearStr_control control fun zero => noNul (zero ▸ member)] at cleaned
  cases cleaned

theorem exists_marker_visible {stream : Bytes}
    (broken : ¬ stream.Pairwise fun first second => IsMarker first → IsMarker second) :
    ∃ front marker byte back, stream = front ++ marker :: byte :: back ∧ IsMarker marker ∧
      ¬ IsMarker byte := by
  induction stream with
  | nil => exact absurd List.Pairwise.nil broken
  | cons head tail ih =>
    by_cases later : tail.Pairwise fun first second => IsMarker first → IsMarker second
    · rw [List.pairwise_cons, not_and_or] at broken
      have atHead := broken.resolve_right (not_not.mpr later)
      push Not at atHead
      obtain ⟨byte, member, marker, plain⟩ := atHead
      cases tail with
      | nil => cases member
      | cons next rest =>
        -- Were the next byte a marker, everything behind it would be one too.
        have nextPlain : ¬ IsMarker next := by
          intro nextMarker
          rcases List.mem_cons.mp member with rfl | inRest
          · exact plain nextMarker
          · exact plain ((List.pairwise_cons.mp later).1 byte inRest nextMarker)
        exact ⟨[], head, next, rest, rfl, marker, nextPlain⟩
    · obtain ⟨front, marker, byte, back, rfl, found⟩ := ih later
      exact ⟨head :: front, marker, byte, back, rfl, found⟩

def visibleSingles (part : Bytes) : List Bytes := part.map fun byte => visible [byte]

theorem cleaned_singles {part : Bytes} (plain : ∀ byte ∈ part, ¬ IsControl byte) (noNul : 0 ∉ part) :
    List.Forall₂ (fun chunk text => clearStr chunk = .ok text) (singles part) (visibleSingles part) := by
  rw [singles, visibleSingles, List.forall₂_map_left_iff, List.forall₂_map_right_iff, List.forall₂_same]
  intro byte member
  refine clearStr_of_seamless ⟨by simpa using plain byte member, List.pairwise_singleton ..⟩ ?_
  simpa using fun zero : 0 = byte => noNul (zero ▸ member)

theorem length_visibleSingles_le (part : Bytes) : (visibleSingles part).flatten.length ≤ part.length := by
  have same : (visibleSingles part).flatten = visible part := by
    have flattened := visible_flatten (singles part)
    rw [flatten_singles] at flattened
    rw [← flattened, singles, List.map_map]
    rfl
  rw [same]
  exact List.length_filter_le ..

section
variable {stream front back : Bytes} {chunks texts : List Bytes}

theorem splits_around (whole : front ++ chunks.flatten ++ back = stream)
    (sizes : ∀ chunk ∈ chunks, 1 ≤ chunk.length ∧ chunk.length ≤ 1023) :
    Splits stream (singles front ++ chunks ++ singles back) := by
  refine ⟨by rw [← whole]; simp [flatten_singles], fun chunk member => ?_⟩
  simp only [List.mem_append] at member
  rcases member with (inFront | between) | inBack
  · exact singles_sizes front chunk inFront
  · exact sizes chunk between
  · exact singles_sizes back chunk inBack

theorem cleaned_around (plain : ∀ byte ∈ front ++ back, ¬ IsControl byte) (noNul : 0 ∉ front ++ back)
    (each : List.Forall₂ (fun chunk text => clearStr chunk = .ok text) chunks texts) :
    List.Forall₂ (fun chunk text => clearStr chunk = .ok text) (singles front ++ chunks ++ singles back)
      (visibleSingles front ++ texts ++ visibleSingles back) := by
  rw [List.mem_append, not_or] at noNul
  rw [List.forall_mem_append] at plain
  have atFront := cleaned_singles plain.1 noNul.1
  have atBack := cleaned_singles plain.2 noNul.2
  exact List.rel_append (List.rel_append atFront each) atBack

theorem length_around_le : (visibleSingles front ++ texts ++ visibleSingles back).flatten.length ≤
    front.length + texts.flatten.length + back.length := by
  have shortFront := length_visibleSingles_le front
  have shortBack := length_visibleSingles_le back
  simp only [List.flatten_append, List.length_append]
  omega

end

/-- A visible byte read behind its marker is cut off, read alone it is not. -/
theorem markers_of_independent {session : Session K} {stream : Bytes} (noNul : 0 ∉ stream)
    (tracked : session.console.outputBuf.val.length ≤ session.console.outputLen)
    (room : session.console.outputLen + stream.length < bufsiz - 1)
    (independent : ChunkingIndependent session stream) :
    stream.Pairwise fun first second => IsMarker first → IsMarker second := by
  have plain := plain_of_independent noNul independent
  by_contra broken
  obtain ⟨front, marker, byte, back, rfl, isMarker, notMarker⟩ := exists_marker_visible broken
  have outsideNul : 0 ∉ front ++ back := fun nul => noNul (by simp_all)
  have outsidePlain : ∀ other ∈ front ++ back, ¬ IsControl other := fun other member => plain other (by
    rcases List.mem_append.mp member with inFront | inBack
    · exact List.mem_append_left _ inFront
    · exact List.mem_append_right _ (List.mem_cons_of_mem _ (List.mem_cons_of_mem _ inBack)))
  have alone : clearStr [byte] = .ok [byte] := by
    have cleaned : clearStr [byte] = .ok (visible [byte]) :=
      clearStr_of_seamless ⟨by simpa using plain byte (by simp), List.pairwise_singleton ..⟩
        (by simpa using fun zero : 0 = byte => noNul (by simp [zero]))
    rw [cleaned]
    simp [visible, notMarker]
  -- The two readings differ only in the cut between the marker and the byte.
  have splitsApart : Splits (front ++ marker :: byte :: back) (singles front ++ [[marker], [byte]] ++ singles back) :=
    splits_around (by simp) (by simp)
  have splitsTogether : Splits (front ++ marker :: byte :: back) (singles front ++ [[marker, byte]] ++ singles back) :=
    splits_around (by simp) (by simp)
  have apart := cleaned_around outsidePlain outsideNul (.cons (clearStr_marker isMarker []) (.cons alone .nil))
  have together := cleaned_around outsidePlain outsideNul (.cons (clearStr_marker isMarker [byte]) .nil)
  rw [List.length_append, List.length_cons, List.length_cons] at room
  have apartLength : (visibleSingles front ++ [[], [byte]] ++ visibleSingles back).flatten.length ≤
    front.length + 1 + back.length := length_around_le
  have togetherLength : (visibleSingles front ++ [[]] ++ visibleSingles back).flatten.length ≤
    front.length + 0 + back.length := length_around_le
  have same := texts_of_independent independent tracked splitsApart splitsTogether apart together
    (by omega) (by omega)
  have lengths := congrArg List.length same
  simp at lengths

/-- A stream reads the same for every chunking exactly when it holds no control
byte and shows nothing behind a prompt marker. -/
theorem chunkingIndependent_iff (session : Session K) (stream : Bytes) (noNul : 0 ∉ stream)
    (tracked : session.console.outputBuf.val.length ≤ session.console.outputLen)
    (room : session.console.outputLen + stream.length < bufsiz - 1) :
    ChunkingIndependent session stream ↔ Seamless stream := by
  constructor
  · intro independent
    exact ⟨plain_of_independent noNul independent,
      markers_of_independent noNul tracked room independent⟩
  · intro seamless first second firstSplits secondSplits
    obtain ⟨final, read, left⟩ := readChunks_of_seamless seamless noNul tracked room firstSplits
    obtain ⟨other, otherRead, otherLeft⟩ := readChunks_of_seamless seamless noNul tracked room secondSplits
    exact ⟨final, other, read, otherRead, Subtype.ext (left.trans otherLeft.symm)⟩

theorem promptLine_independent_iff :
    ChunkingIndependent freshSession (text "ls\n/ #") ↔ Seamless (text "ls\n/ #") :=
  chunkingIndependent_iff freshSession (text "ls\n/ #") (by decide) (by decide) (by decide)

/-- A coloured word: read at once the colour is removed, cut inside the escape
sequence its rest stays as text. -/
theorem colouredWord_dependent :
    ¬ ChunkingIndependent freshSession (escape :: text "[31mHi") := by
  intro independent
  have whole : Splits (escape :: text "[31mHi") [escape :: text "[31mHi"] := ⟨by decide, by decide⟩
  have cut : Splits (escape :: text "[31mHi") [escape :: text "[3", text "1mHi"] := ⟨by decide, by decide⟩
  have wholeText : List.Forall₂ (fun chunk text => clearStr chunk = .ok text)
      [escape :: text "[31mHi"] [text "Hi"] := .cons rfl .nil
  have cutText : List.Forall₂ (fun chunk text => clearStr chunk = .ok text)
      [escape :: text "[3", text "1mHi"] [[], text "1mHi"] := .cons rfl (.cons rfl .nil)
  have same := texts_of_independent independent (by decide) whole cut wholeText cutText (by decide) (by decide)
  exact absurd same (by decide)

end Trigger.Terminal
