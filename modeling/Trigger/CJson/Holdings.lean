import Trigger.CJson.Forest
import Trigger.Foundation.Runs

/-! Trees that a program holds by their roots, and the calls that make, join and delete them. -/

set_option autoImplicit false

namespace Trigger.CJson
open Foundation Config

/-- What a program holds: the roots it may pass to cJSON, each with the tree it stands for. -/
abbrev Held := Nat → Option Json

/-- Every held root stands for its tree in blocks of its own; the live blocks of no root are loose. -/
structure Holdings (heap : Heap Block) (held : Held) (foot : Nat → List Nat) (loose : List Nat) : Prop where
  tree : ∀ {root json}, held root = some json → Forest heap none [root] [(none, json)] (foot root)
  nodup : ∀ {root json}, held root = some json → (foot root).Nodup
  apart : ∀ {root other json kind}, root ≠ other → held root = some json → held other = some kind →
    (foot root).Disjoint (foot other)
  free : ∀ {root json}, held root = some json → (foot root).Disjoint loose
  live : ∀ address, heap.Live address ↔ address ∈ loose ∨ ∃ root json, held root = some json ∧ address ∈ foot root

/-- No live block belongs to no root, so nothing is leaked while the roots are held. -/
def Accounted (heap : Heap Block) (held : Held) : Prop := ∃ foot, Holdings heap held foot []

section
variable {heap other : Heap Block} {held : Held} {foot : Nat → List Nat} {loose blocks : List Nat} {root : Nat} {json : Json}

theorem Forest.root_mem {prev : Pointer} {key : Option Bytes} (forest : Forest heap prev [root] [(key, json)] blocks) :
    root ∈ blocks := forest.addresses_subset (List.mem_singleton.mpr rfl)

theorem leaf_forest {item : Item} {value : Option Bytes} {valued : List Nat} (loaded : heap.load root = some (.item item))
    (linked : Linked item none none none) (owner : Owner item) (unnamed : item.string = none)
    (own : Chars heap item.valuestring value valued) (denotes : Denotes item.kind item.valueint value [] json) :
    Forest heap none [root] [(none, json)] (root :: valued) := by
  have name : Chars heap item.string none [] := by rw [unnamed]; exact .none
  have inner : Forest heap ([] : List Nat).getLast? [] [] [] := .nil
  have stands := Forest.cons loaded linked owner name own denotes inner .nil
  simpa using stands

theorem Holdings.not_held_fresh (holdings : Holdings heap held foot loose) : held heap.fresh = none := by
  cases found : held heap.fresh with
  | none => rfl
  | some json =>
    have live := (holdings.tree found).live heap.fresh (holdings.tree found).root_mem
    exact absurd rfl live.ne_fresh

theorem Holdings.take (holdings : Holdings heap held foot loose) (found : held root = some json) :
    Holdings heap (Function.update held root none) foot (foot root ++ loose) := by
  have still {other kind} (held' : Function.update held root none other = some kind) :
      other ≠ root ∧ held other = some kind := by
    by_cases same : other = root
    · rw [same, Function.update_self] at held'
      cases held'
    · exact ⟨same, by rwa [Function.update_of_ne same] at held'⟩
  constructor
  · intro other kind there
    exact holdings.tree (still there).2
  · intro other kind there
    exact holdings.nodup (still there).2
  · intro first second one two apart there also
    exact holdings.apart apart (still there).2 (still also).2
  · intro other kind there
    obtain ⟨apart, there⟩ := still there
    exact List.disjoint_append_right.mpr ⟨holdings.apart apart there found, holdings.free there⟩
  · intro address
    rw [holdings.live, List.mem_append]
    constructor
    · rintro (member | ⟨other, kind, there, member⟩)
      · exact .inl (.inr member)
      · by_cases same : other = root
        · exact .inl (.inl (same ▸ member))
        · exact .inr ⟨other, kind, by rwa [Function.update_of_ne same], member⟩
    · rintro ((member | member) | ⟨other, kind, there, member⟩)
      · exact .inr ⟨root, json, found, member⟩
      · exact .inl member
      · exact .inr ⟨other, kind, (still there).2, member⟩

theorem Holdings.give (holdings : Holdings heap held foot (blocks ++ loose)) (absent : held root = none)
    (forest : Forest heap none [root] [(none, json)] blocks) (nodup : blocks.Nodup) (apart : blocks.Disjoint loose) :
    Holdings heap (Function.update held root (some json)) (Function.update foot root blocks) loose := by
  have others {other kind} (differs : other ≠ root) (there : held other = some kind) :
      (foot other).Disjoint blocks ∧ (foot other).Disjoint loose := List.disjoint_append_right.mp (holdings.free there)
  constructor
  · intro other kind there
    by_cases same : other = root
    · subst same
      rw [Function.update_self] at there ⊢
      cases there
      exact forest
    · rw [Function.update_of_ne same] at there ⊢
      exact holdings.tree there
  · intro other kind there
    by_cases same : other = root
    · rw [same, Function.update_self]
      exact nodup
    · rw [Function.update_of_ne same] at there ⊢
      exact holdings.nodup there
  · intro first second one two differs there also
    by_cases isFirst : first = root
    · have isSecond : second ≠ root := fun same => differs (isFirst.trans same.symm)
      rw [Function.update_of_ne isSecond] at also ⊢
      rw [isFirst, Function.update_self]
      exact (others isSecond also).1.symm
    · rw [Function.update_of_ne isFirst] at there ⊢
      by_cases isSecond : second = root
      · rw [isSecond, Function.update_self]
        exact (others isFirst there).1
      · rw [Function.update_of_ne isSecond] at also ⊢
        exact holdings.apart differs there also
  · intro other kind there
    by_cases same : other = root
    · rw [same, Function.update_self]
      exact apart
    · rw [Function.update_of_ne same] at there ⊢
      exact (others same there).2
  · intro address
    rw [holdings.live, List.mem_append]
    constructor
    · rintro ((member | member) | ⟨other, kind, there, member⟩)
      · exact .inr ⟨root, json, Function.update_self .., by rwa [Function.update_self]⟩
      · exact .inl member
      · have same : other ≠ root := by
          rintro rfl
          rw [absent] at there
          cases there
        exact .inr ⟨other, kind, by rwa [Function.update_of_ne same], by rwa [Function.update_of_ne same]⟩
    · rintro (member | ⟨other, kind, there, member⟩)
      · exact .inl (.inr member)
      · by_cases same : other = root
        · rw [same, Function.update_self] at member
          exact .inl (.inl member)
        · rw [Function.update_of_ne same] at there member
          exact .inr ⟨other, kind, there, member⟩

theorem Holdings.change {after : List Nat} (holdings : Holdings heap held foot loose)
    (kept : ∀ address, heap.Live address → address ∉ loose → other.load address = heap.load address)
    (live : ∀ address, other.Live address ↔ heap.Live address ∧ address ∉ loose ∨ address ∈ after)
    (within : ∀ address ∈ after, heap.Live address → address ∈ loose) : Holdings other held foot after := by
  have agrees {root json} (found : held root = some json) : other.Agrees heap (foot root) := fun address member =>
    kept address ((holdings.tree found).live address member) (holdings.free found member)
  constructor
  · intro root json found
    exact (holdings.tree found).agrees (agrees found)
  · exact holdings.nodup
  · exact holdings.apart
  · intro root json found address member inside
    exact holdings.free found member (within address inside ((holdings.tree found).live address member))
  · intro address
    rw [live, holdings.live]
    constructor
    · rintro (⟨member | there, apart⟩ | member)
      · exact absurd member apart
      · exact .inr there
      · exact .inl member
    · rintro (member | ⟨root, json, found, member⟩)
      · exact .inr member
      · exact .inl ⟨.inr ⟨root, json, found, member⟩, holdings.free found member⟩

theorem Accounted.released (accounted : Accounted heap held) (nothing : ∀ root, held root = none) (address : Nat) :
    ¬ heap.Live address := by
  obtain ⟨foot, holdings⟩ := accounted
  rw [holdings.live]
  simp [nothing]

theorem accounted_empty : Accounted Heap.empty fun _ => none := by
  refine ⟨fun _ => [], ⟨?_, ?_, ?_, ?_, ?_⟩⟩
  · rintro _ _ ⟨⟩
  · rintro _ _ ⟨⟩
  · rintro _ _ _ _ _ ⟨⟩
  · rintro _ _ ⟨⟩
  · simp

end

namespace Arena

/-- What the call leaves: a longer row with its shortcut to the new last one, the pointer to its
first, and everything else as it was. -/
structure Joined (before after : Arena) (array item : Nat) (node : Item) (children : List Nat)
    (members : List (Option Bytes × Json)) (blocks : List Nat) : Prop where
  answers : after.answers = before.answers
  container : after.heap.load array = some (.item { node with child := (children ++ [item]).head? })
  row : Forest after.heap (some item) (children ++ [item]) members blocks
  kept : ∀ asked, asked ∉ array :: blocks → after.heap.load asked = before.heap.load asked

section
variable {arena : Arena} {array item : Nat} {node : Item} {children below foot : List Nat}
  {members : List (Option Bytes × Json)} {key : Option Bytes} {json : Json}

theorem item_of_root {prev : Pointer} (root : Forest arena.heap prev [item] [(key, json)] foot) :
    ∃ own, arena.heap.load item = some (.item own) ∧ own.next = none := by
  cases root with
  | cons loaded linked => exact ⟨_, loaded, linked.next⟩

/-- Into an empty container the item comes as the first and the last at once. -/
theorem addItemToArray_empty (loaded : arena.heap.load array = some (.item node)) (child : node.child = none)
    (root : Forest arena.heap none [item] [(key, json)] foot) (outside : array ∉ foot) (nodup : foot.Nodup) :
    ∃ after, arena.addItemToArray (some array) (some item) = .ok (true, after) ∧
      Joined arena after array item node [] [(key, json)] foot := by
  have itemInside : item ∈ foot := root.root_mem
  have differs : array ≠ item := fun same => outside (same ▸ itemInside)
  obtain ⟨own, loadedOwn, linked⟩ := item_of_root root
  obtain ⟨first, modified, wroteArray⟩ := modify_wrote loaded fun node => { node with child := some item }
  obtain ⟨second, modifiedPrev, wrotePrev⟩ := modify_wrote ((wroteArray.kept item (Ne.symm differs)).trans loadedOwn)
    fun node => { node with prev := some item }
  obtain ⟨third, modifiedNext, wroteNext⟩ := modify_wrote wrotePrev.loaded fun node => { node with next := none }
  have kept (asked : Nat) (notArray : asked ≠ array) (notItem : asked ≠ item) :
      third.heap.load asked = arena.heap.load asked :=
    (wroteNext.kept asked notItem).trans ((wrotePrev.kept asked notItem).trans (wroteArray.kept asked notArray))
  refine ⟨third, ?_, ?_, ?_, ?_, ?_⟩
  · rw [addItemToArray, if_neg differs, item_of_load loaded, ok_bind, child]
    dsimp only
    rw [modified, ok_bind, modifiedPrev, ok_bind, modifiedNext]
    rfl
  · rw [wroteNext.answers, wrotePrev.answers, wroteArray.answers]
  · exact (wroteNext.kept array differs).trans ((wrotePrev.kept array differs).trans wroteArray.loaded)
  · refine root.rebase nodup loadedOwn ?_ fun asked member notItem => ?_
    · rw [wroteNext.loaded, ← linked]
    · exact kept asked (fun same => outside (same ▸ member)) notItem
  · intro asked apart
    rw [List.mem_cons, not_or] at apart
    exact kept asked apart.1 fun same => apart.2 (same ▸ itemInside)

theorem suffixObject_forest {prev : Pointer} {last : Nat} (inner : Forest arena.heap prev children members below)
    (isLast : children.getLast? = some last) (root : Forest arena.heap none [item] [(key, json)] foot)
    (nodup : (below ++ foot).Nodup) :
    ∃ after, arena.suffixObject last item = .ok after ∧ after.answers = arena.answers ∧
      Forest after.heap prev (children ++ [item]) (members ++ [(key, json)]) (below ++ foot) ∧
      ∀ asked, asked ∉ below ++ foot → after.heap.load asked = arena.heap.load asked := by
  obtain ⟨belowOnce, footOnce, apart⟩ := List.nodup_append'.mp nodup
  have itemInside : item ∈ foot := root.root_mem
  have lastInside : last ∈ below := inner.addresses_subset (List.mem_of_getLast? isLast)
  have lastNotItem : last ≠ item := fun same => apart lastInside (same ▸ itemInside)
  obtain ⟨own, loadedOwn, -⟩ := item_of_root root
  obtain ⟨back, loadedLast⟩ := inner.loaded_of_mem (List.mem_of_getLast? isLast)
  obtain ⟨first, modifiedNext, wroteNext⟩ := modify_wrote loadedLast fun node => { node with next := some item }
  obtain ⟨second, modifiedPrev, wrotePrev⟩ := modify_wrote ((wroteNext.kept item (Ne.symm lastNotItem)).trans loadedOwn)
    fun node => { node with prev := some last }
  have kept (asked : Nat) (notLast : asked ≠ last) (notItem : asked ≠ item) :
      second.heap.load asked = arena.heap.load asked :=
    (wrotePrev.kept asked notItem).trans (wroteNext.kept asked notLast)
  have tail : Forest second.heap (some last) [item] [(key, json)] foot :=
    root.rebase footOnce loadedOwn wrotePrev.loaded fun asked member notItem =>
      kept asked (fun same => apart lastInside (same ▸ member)) notItem
  have written : second.heap.load last = some (.item { back with next := [item].head? }) :=
    (wrotePrev.kept last lastNotItem).trans wroteNext.loaded
  refine ⟨second, ?_, ?_, ?_, fun asked outside => ?_⟩
  · rw [suffixObject, modifiedNext, ok_bind, modifiedPrev]
  · rw [wrotePrev.answers, wroteNext.answers]
  · exact inner.append belowOnce isLast loadedLast written
      (fun asked member notLast => kept asked notLast fun same => apart member (same ▸ itemInside)) tail
  · rw [List.mem_append, not_or] at outside
    exact kept asked (fun same => outside.1 (same ▸ lastInside)) fun same => outside.2 (same ▸ itemInside)

theorem addItemToArray_forest (loaded : arena.heap.load array = some (.item node)) (child : node.child = children.head?)
    (inner : Forest arena.heap children.getLast? children members below)
    (root : Forest arena.heap none [item] [(key, json)] foot) (nodup : (array :: (below ++ foot)).Nodup) :
    ∃ after, arena.addItemToArray (some array) (some item) = .ok (true, after) ∧
      Joined arena after array item node children (members ++ [(key, json)]) (below ++ foot) := by
  obtain ⟨outside, once⟩ := List.nodup_cons.mp nodup
  cases children with
  | nil =>
    cases inner
    exact addItemToArray_empty loaded child root outside once
  | cons head rest =>
    obtain ⟨last, isLast⟩ : ∃ last, (head :: rest).getLast? = some last := ⟨_, List.getLast?_eq_some_getLast (by simp)⟩
    rw [isLast] at inner
    obtain ⟨front, loadedFront, leads⟩ : ∃ front, arena.heap.load head = some (.item front) ∧ front.prev = some last := by
      cases inner with
      | cons loaded linked => exact ⟨_, loaded, linked.prev⟩
    have differs : array ≠ item := fun same => outside (same ▸ List.mem_append_right below root.root_mem)
    have headInside : head ∈ below ++ foot :=
      List.mem_append_left foot (inner.addresses_subset (List.mem_cons_self ..))
    -- After the two links the longer row stands, but for the shortcut of the first to the last.
    obtain ⟨second, suffixed, answers, longer, kept⟩ := suffixObject_forest inner isLast root once
    have loadedArray := (kept array outside).trans loaded
    obtain ⟨front', loadedFront'⟩ := longer.loaded_of_mem (List.mem_cons_self ..)
    obtain ⟨third, modifiedHead, wroteHead⟩ := modify_wrote loadedFront' fun node => { node with prev := some item }
    refine ⟨third, ?_, ?_, ?_, ?_, ?_⟩
    · rw [addItemToArray, if_neg differs, item_of_load loaded, ok_bind, child]
      dsimp only [List.head?_cons]
      rw [item_of_load loadedFront, ok_bind, leads]
      dsimp only
      rw [suffixed, ok_bind, item_of_load loadedArray, ok_bind, child]
      dsimp only [List.head?_cons, deref]
      rw [ok_bind, modifiedHead]
      rfl
    · rw [wroteHead.answers, answers]
    · have unchanged : ({ node with child := some head } : Item) = node := by
        rw [List.head?_cons] at child
        rw [← child]
      rw [wroteHead.kept array fun same => outside (same ▸ headInside), loadedArray, List.cons_append, List.head?_cons,
        unchanged]
    · exact longer.rebase once loadedFront' wroteHead.loaded fun asked _ notHead => wroteHead.kept asked notHead
    · intro asked apart
      rw [List.mem_cons, not_or] at apart
      exact (wroteHead.kept asked fun same => apart.2 (same ▸ headInside)).trans (kept asked apart.2)

end

end Arena

/-- An array or an object with one more item at its end. -/
inductive Adopts : Option Bytes → Json → Json → Json → Prop where
  | array (json : Json) (items : List Json) : Adopts none json (.array items) (.array (items ++ [json]))
  | object (name : Bytes) (json : Json) (members : List (Bytes × Json)) :
      Adopts (some name) json (.object members) (.object (members ++ [(name, json)]))

theorem Adopts.denotes {key : Option Bytes} {json outer whole : Json} (adopts : Adopts key json outer whole) {kind : Kind}
    {valueint : Int} {value : Option Bytes} {members : List (Option Bytes × Json)}
    (denotes : Denotes kind valueint value members outer) :
    value = none ∧ Denotes kind valueint none (members ++ [(key, json)]) whole := by
  cases adopts with
  | array json items =>
    cases denotes
    have longer : Denotes .array valueint _ _ _ := .array (items ++ [json])
    rw [List.map_append] at longer
    exact ⟨rfl, longer⟩
  | object name json members =>
    cases denotes
    have longer : Denotes .object valueint _ _ _ := .object (members ++ [(name, json)])
    rw [List.map_append] at longer
    exact ⟨rfl, longer⟩

theorem Holdings.join {arena : Arena} {held : Held} {foot : Nat → List Nat} {trunk branch : List Nat} {array item : Nat}
    {key : Option Bytes} {json outer whole : Json} (holdings : Holdings arena.heap held foot (trunk ++ branch))
    (absent : held array = none) (container : Forest arena.heap none [array] [(none, outer)] trunk)
    (root : Forest arena.heap none [item] [(key, json)] branch) (nodup : (trunk ++ branch).Nodup)
    (adopts : Adopts key json outer whole) :
    ∃ after, arena.addItemToArray (some array) (some item) = .ok (true, after) ∧ after.answers = arena.answers ∧
      Accounted after.heap (Function.update held array (some whole)) := by
  cases container with
  | @cons _ _ _ children node _ _ members _ _ _ _ below _ loaded linked owner name own denotes inner later =>
    obtain ⟨rfl, longer⟩ := adopts.denotes denotes
    cases later
    obtain ⟨unnamed, rfl⟩ := null_of_chars name
    obtain ⟨plain, rfl⟩ := null_of_chars own
    simp only [List.nil_append, List.append_nil, List.cons_append] at holdings nodup ⊢
    obtain ⟨after, added, answers, loadedAfter, inside, kept⟩ := Arena.addItemToArray_forest loaded linked.child inner root nodup
    have stands : Forest after.heap none [array] [(none, whole)] (array :: (below ++ branch)) := by
      have built := Forest.cons loadedAfter ⟨linked.next, linked.prev, rfl⟩ ⟨owner.notReference, owner.notConst⟩
        (by rw [unnamed]; exact .none) (by rw [plain]; exact .none) longer (by rwa [List.getLast?_concat]) .nil
      simpa using built
    have live (address : Nat) : after.heap.Live address ↔ arena.heap.Live address ∧ address ∉ array :: (below ++ branch) ∨
        address ∈ array :: (below ++ branch) := by
      by_cases member : address ∈ array :: (below ++ branch)
      · have there : after.heap.Live address := by
          rcases List.mem_cons.mp member with rfl | inside'
          · exact Heap.live_of_load loadedAfter
          · exact inside.live address inside'
        simp [there, member]
      · simp [Heap.Live, kept address member, member]
    have changed := holdings.change (fun address _ outside => kept address outside) live fun _ member _ => member
    rw [← List.append_nil (array :: (below ++ branch))] at changed
    exact ⟨after, added, answers, _, changed.give absent stands nodup (List.disjoint_nil_right _)⟩

theorem Forest.named {heap : Heap Block} {item : Nat} {json : Json} {blocks : List Nat}
    (root : Forest heap none [item] [(none, json)] blocks) :
    ∃ node rest, heap.load item = some (.item node) ∧ blocks = item :: rest ∧ node.string = none ∧
      ∀ (other : Heap Block) (key : Nat) (name : Bytes),
        other.load item = some (.item { node with string := some key, stringIsConst := false }) →
        other.load key = some (.chars name) → other.Agrees heap rest →
        Forest other none [item] [(some name, json)] (item :: key :: rest) := by
  cases root with
  | cons loaded linked owner name own denotes inner later =>
    obtain ⟨unnamed, rfl⟩ := null_of_chars name
    cases later
    refine ⟨_, _, loaded, rfl, unnamed, fun other key name written copied agrees => ?_⟩
    simp only [Heap.agrees_append_iff] at agrees
    obtain ⟨⟨⟨-, inOwn⟩, inInner⟩, -⟩ := agrees
    exact .cons written ⟨linked.next, linked.prev, linked.child⟩ ⟨owner.notReference, rfl⟩ (.some copied) (own.agrees inOwn)
      denotes (inner.agrees inInner) .nil

theorem Holdings.name {arena : Arena} {held : Held} {foot : Nat → List Nat} {trunk branch : List Nat} {item : Nat}
    {json : Json} (holdings : Holdings arena.heap held foot (trunk ++ branch))
    (root : Forest arena.heap none [item] [(none, json)] branch) (once : (trunk ++ branch).Nodup) (name : Bytes)
    (rest : List Bool) :
    ∃ node second longer, (Arena.mk (arena.heap.create (.chars name)) rest).heap.load item = some (.item node) ∧
      node.string = none ∧
      (Arena.mk (arena.heap.create (.chars name)) rest).modify item
        (fun node => { node with string := some arena.heap.fresh, stringIsConst := false }) = .ok second ∧
      second.answers = rest ∧ Holdings second.heap held foot (trunk ++ longer) ∧
      Forest second.heap none [item] [(some name, json)] longer ∧ (trunk ++ longer).Nodup ∧
      second.heap.Agrees arena.heap trunk := by
  obtain ⟨node, others, loaded, rfl, unnamed, renamed⟩ := root.named
  have live (address : Nat) (member : address ∈ trunk ++ item :: others) : arena.heap.Live address :=
    (holdings.live address).mpr (.inl member)
  have itemLive := Heap.live_of_load loaded
  have there : (Arena.mk (arena.heap.create (.chars name)) rest).heap.load item = some (.item node) :=
    (Heap.load_create _).trans ((if_neg itemLive.ne_fresh).trans loaded)
  obtain ⟨second, modified, wrote⟩ := Arena.modify_wrote there fun node =>
    { node with string := some arena.heap.fresh, stringIsConst := false }
  have kept {address : Nat} (live : arena.heap.Live address) (apart : address ≠ item) :
      second.heap.load address = arena.heap.load address :=
    (wrote.kept address apart).trans ((Heap.load_create _).trans (if_neg live.ne_fresh))
  have copied : second.heap.load arena.heap.fresh = some (.chars name) :=
    (wrote.kept _ itemLive.ne_fresh.symm).trans (Heap.load_create_fresh arena.heap _)
  have unused : arena.heap.fresh ∉ trunk ++ item :: others := fun member => (live _ member).ne_fresh rfl
  have others_of (address : Nat) : address ∈ trunk ++ item :: arena.heap.fresh :: others ↔
      address = arena.heap.fresh ∨ address ∈ trunk ++ item :: others := by
    simp only [List.mem_append, List.mem_cons]
    tauto
  have onceMore : (trunk ++ item :: arena.heap.fresh :: others).Nodup := by
    have moved : (trunk ++ item :: arena.heap.fresh :: others).Perm (arena.heap.fresh :: (trunk ++ item :: others)) := by
      rw [List.append_cons, List.append_cons trunk item others]
      exact List.perm_middle
    exact moved.nodup_iff.mpr (List.nodup_cons.mpr ⟨unused, once⟩)
  obtain ⟨-, itemOnce, apart⟩ := List.nodup_append'.mp once
  refine ⟨node, second, item :: arena.heap.fresh :: others, there, unnamed, modified, wrote.answers, ?_, ?_, onceMore, ?_⟩
  · refine holdings.change (fun address live outside => kept live fun here => ?_) (fun address => ?_) fun address member live => ?_
    · exact outside (here ▸ List.mem_append_right _ (List.mem_cons_self ..))
    · rw [wrote.live_iff (Heap.live_of_load there), Heap.live_create_iff, others_of]
      have known := live address
      tauto
    · exact ((others_of address).mp member).resolve_left live.ne_fresh
  · refine renamed second.heap arena.heap.fresh name wrote.loaded copied fun address member => ?_
    refine kept (live address (by simp [member])) fun here => ?_
    exact (List.nodup_cons.mp itemOnce).1 (here ▸ member)
  · intro address member
    refine kept (live address (List.mem_append_left _ member)) fun here => ?_
    exact apart member (here ▸ List.mem_cons_self ..)

def adopt (key : Option Bytes) (json outer : Json) : Json :=
  match key, outer with
  | none, .array items => .array (items ++ [json])
  | some name, .object members => .object (members ++ [(name, json)])
  | _, outer => outer

/-- The item is held with its container from now on. -/
def attached (held : Held) (container : Pointer) (key : Option Bytes) (item : Pointer) : Held :=
  match container, item with
  | some container, some item =>
    match held container, held item with
    | some outer, some json => Function.update (Function.update held item none) container (some (adopt key json outer))
    | _, _ => held
  | _, _ => held

/-- A tree that was never held on its own is in the container from now on. -/
def grown (held : Held) (container : Pointer) (key : Option Bytes) (json : Json) : Held :=
  match container with
  | some container =>
    match held container with
    | some outer => Function.update held container (some (adopt key json outer))
    | none => held
  | none => held

theorem update_none_of_absent {held : Held} {root : Nat} (absent : held root = none) : Function.update held root none = held := by
  rw [← absent, Function.update_eq_self]

/-- The pointers may be passed: the container is null or a held one of the right kind, the item null or held. -/
structure Attachable (held : Held) (container : Pointer) (key : Option Bytes) (item : Pointer) : Prop where
  container : ∀ root ∈ container, ∃ outer, held root = some outer ∧ ∀ json, Adopts key json outer (adopt key json outer)
  item : ∀ root ∈ item, held root ≠ none

/-- Every allocation from here on succeeds. -/
def Arena.Granted (arena : Arena) : Prop := ∀ answer ∈ arena.answers, answer = true

def hold (pointer : Pointer) (json : Json) (held : Held) : Held :=
  match pointer with
  | some root => Function.update held root (some json)
  | none => held

def letGo (pointer : Pointer) (held : Held) : Held :=
  match pointer with
  | some root => Function.update held root none
  | none => held

namespace Arena

variable {arena : Arena} {held : Held}

theorem allocate_cases (arena : Arena) (block : Block) :
    (∃ rest, arena.allocate block = (none, ⟨arena.heap, rest⟩) ∧ ¬ arena.Granted) ∨
      ∃ rest, arena.allocate block = (some arena.heap.fresh, ⟨arena.heap.create block, rest⟩) ∧
        (arena.Granted → ∀ answer ∈ rest, answer = true) := by
  rw [allocate, Granted]
  cases arena.answers with
  | nil => exact .inr ⟨[], rfl, by simp⟩
  | cons answer rest =>
    cases answer with
    | false => exact .inl ⟨rest, rfl, by simp⟩
    | true => exact .inr ⟨rest, rfl, fun all => (List.forall_mem_cons.mp all).2⟩

theorem create_accounted (accounted : Accounted arena.heap held) (written : Item → Item) {json : Json}
    (bare : Linked (written .zero) none none none) (owner : Owner (written .zero)) (unnamed : (written .zero).string = none)
    (plain : (written .zero).valuestring = none)
    (denotes : Denotes (written .zero).kind (written .zero).valueint none [] json) :
    ∃ pointer after, arena.create written = .ok (pointer, after) ∧ Accounted after.heap (hold pointer json held) ∧
      (∀ root ∈ pointer, held root = none) ∧ (arena.Granted → pointer ≠ none ∧ after.Granted) := by
  rcases allocate_cases arena (.item .zero) with ⟨rest, refused, denied⟩ | ⟨rest, granted, further⟩
  · exact ⟨none, ⟨arena.heap, rest⟩, by rw [create, newItem, refused], accounted, by simp, fun all => absurd all denied⟩
  · obtain ⟨foot, holdings⟩ := accounted
    have loaded : (Arena.mk (arena.heap.create (.item .zero)) rest).heap.load arena.heap.fresh = some (.item .zero) :=
      Heap.load_create_fresh arena.heap _
    obtain ⟨after, modified, wrote⟩ := modify_wrote loaded written
    have stands := leaf_forest wrote.loaded bare owner unnamed (by rw [plain]; exact .none) denotes
    have changed : Holdings after.heap held foot ([arena.heap.fresh] ++ []) := by
      refine holdings.change (fun address live _ => ?_) (fun address => ?_) fun address member live => ?_
      · exact (wrote.kept address live.ne_fresh).trans ((Heap.load_create address).trans (if_neg live.ne_fresh))
      · rw [wrote.live_iff (Heap.live_of_load loaded), Heap.live_create_iff]
        simp [or_comm]
      · cases List.mem_singleton.mp member
        exact absurd rfl live.ne_fresh
    have absent := holdings.not_held_fresh
    refine ⟨some arena.heap.fresh, after, ?_, ?_, ?_, fun all => ⟨Option.some_ne_none _, ?_⟩⟩
    · rw [create, newItem, granted]
      dsimp only
      rw [modified]
      rfl
    · exact ⟨_, changed.give absent stands (List.nodup_singleton _) (List.disjoint_nil_right _)⟩
    · rintro root ⟨⟩
      exact absent
    · rw [Granted, wrote.answers]
      exact further all

theorem delete_accounted (accounted : Accounted arena.heap held) {item : Pointer} (allowed : ∀ root ∈ item, held root ≠ none) :
    ∃ after, arena.delete item = .ok after ∧ Accounted after.heap (letGo item held) ∧ after.answers = arena.answers := by
  cases item with
  | none => exact ⟨arena, deleteWithin_none .., accounted, rfl⟩
  | some root =>
    obtain ⟨json, found⟩ := Option.ne_none_iff_exists'.mp (allowed root rfl)
    obtain ⟨foot, holdings⟩ := accounted
    have tree := holdings.tree found
    have once := holdings.nodup found
    obtain ⟨after, deleted, freed⟩ := deleteWithin_frees tree once arena (fun _ _ => rfl) arena.heap.fresh
      (length_le_fresh once tree.live)
    refine ⟨after, deleted, ⟨foot, ?_⟩, freed.answers⟩
    refine (holdings.take found).change (fun address _ outside => ?_) (fun address => ?_) fun _ member => (List.not_mem_nil member).elim
    · rw [List.append_nil] at outside
      rw [freed.frees address, if_neg outside]
    · rw [freed.frees.live_iff, List.append_nil]
      simp

/-- Either both blocks of a string are there, or the item that was made for it is deleted again. -/
theorem createString_accounted (accounted : Accounted arena.heap held) (string : Bytes) :
    ∃ pointer after, arena.createString string = .ok (pointer, after) ∧
      Accounted after.heap (hold pointer (.string string) held) ∧ (∀ root ∈ pointer, held root = none) ∧
      (arena.Granted → pointer ≠ none ∧ after.Granted) := by
  rcases allocate_cases arena (.item .zero) with ⟨rest, refused, denied⟩ | ⟨rest, granted, further⟩
  · exact ⟨none, ⟨arena.heap, rest⟩, by rw [createString, newItem, refused], accounted, by simp, fun all => absurd all denied⟩
  · obtain ⟨foot, holdings⟩ := accounted
    have absent := holdings.not_held_fresh
    have loaded : (Arena.mk (arena.heap.create (.item .zero)) rest).heap.load arena.heap.fresh = some (.item .zero) :=
      Heap.load_create_fresh arena.heap _
    obtain ⟨typed, modified, wrote⟩ := modify_wrote loaded fun item => { item with kind := .string }
    have typedLive (address : Nat) : typed.heap.Live address ↔ address = arena.heap.fresh ∨ arena.heap.Live address :=
      (wrote.live_iff (Heap.live_of_load loaded) address).trans (Heap.live_create_iff address)
    have typedKept {address : Nat} (live : arena.heap.Live address) : typed.heap.load address = arena.heap.load address :=
      (wrote.kept address live.ne_fresh).trans ((Heap.load_create address).trans (if_neg live.ne_fresh))
    rcases allocate_cases typed (.chars string) with ⟨less, refusedCopy, denied⟩ | ⟨less, grantedCopy, furtherCopy⟩
    · -- Without room for the copy the item goes again.
      have there : (Arena.mk typed.heap less).heap.load arena.heap.fresh = _ := wrote.loaded
      obtain ⟨second, modifiedAgain, wroteAgain⟩ := modify_wrote there fun item => { item with valuestring := none }
      obtain ⟨last, deleted, freed⟩ := delete_leaf wroteAgain.loaded ⟨rfl, rfl, rfl⟩ ⟨rfl, rfl⟩ .none .none
        (List.not_mem_nil) (List.not_mem_nil) (List.disjoint_nil_left _)
      have ungranted : ¬ arena.Granted := fun all => denied (by rw [Granted, wrote.answers]; exact further all)
      refine ⟨none, last, ?_, ⟨foot, ?_⟩, by simp, fun all => absurd all ungranted⟩
      · rw [createString, newItem, granted]
        dsimp only
        rw [modified, ok_bind, strdup, refusedCopy]
        dsimp only
        rw [modifiedAgain, ok_bind, deleted]
        rfl
      · have lastLive (address : Nat) : last.heap.Live address ↔ arena.heap.Live address := by
          rw [freed.frees.live_iff, wroteAgain.live_iff (Heap.live_of_load there), typedLive]
          have apart := fun live : arena.heap.Live address => live.ne_fresh
          simp
          tauto
        refine holdings.change (fun address live _ => ?_) (fun address => by simp [lastLive]) fun _ member _ => member
        rw [freed.frees address, if_neg (by simpa using live.ne_fresh), wroteAgain.kept address live.ne_fresh]
        exact typedKept live
    · -- The item and the copy are the two blocks of the string.
      have typedHere := Heap.live_of_load wrote.loaded
      have there : (Arena.mk (typed.heap.create (.chars string)) less).heap.load arena.heap.fresh =
          some (.item { Item.zero with kind := .string }) :=
        (Heap.load_create _).trans ((if_neg typedHere.ne_fresh).trans wrote.loaded)
      obtain ⟨last, modifiedAgain, wroteAgain⟩ := modify_wrote there fun item => { item with valuestring := some typed.heap.fresh }
      have copied : last.heap.load typed.heap.fresh = some (.chars string) :=
        (wroteAgain.kept _ typedHere.ne_fresh.symm).trans (Heap.load_create_fresh typed.heap _)
      have stands := leaf_forest wroteAgain.loaded ⟨rfl, rfl, rfl⟩ ⟨rfl, rfl⟩ rfl (.some copied) (.string string)
      have changed : Holdings last.heap held foot ([arena.heap.fresh, typed.heap.fresh] ++ []) := by
        refine holdings.change (fun address live _ => ?_) (fun address => ?_) fun address member live => ?_
        · have alsoTyped := (typedLive address).mpr (.inr live)
          exact (wroteAgain.kept address live.ne_fresh).trans
            ((Heap.load_create _).trans ((if_neg alsoTyped.ne_fresh).trans (typedKept live)))
        · rw [wroteAgain.live_iff (Heap.live_of_load there), Heap.live_create_iff, typedLive]
          simp
          tauto
        · have alsoTyped := (typedLive address).mpr (.inr live)
          simp [live.ne_fresh, alsoTyped.ne_fresh] at member
      refine ⟨some arena.heap.fresh, last, ?_, ⟨_, changed.give absent stands ?_ (List.disjoint_nil_right _)⟩, ?_,
        fun all => ⟨Option.some_ne_none _, ?_⟩⟩
      · rw [createString, newItem, granted]
        dsimp only
        rw [modified, ok_bind, strdup, grantedCopy]
        dsimp only
        rw [modifiedAgain, ok_bind]
        rfl
      · simp [typedHere.ne_fresh]
      · rintro root ⟨⟩
        exact absent
      · have grantedTyped : typed.Granted := by rw [Granted, wrote.answers]; exact further all
        rw [Granted, wroteAgain.answers]
        exact furtherCopy grantedTyped

theorem addItemToArray_accounted (accounted : Accounted arena.heap held) {container item : Pointer}
    (allowed : Attachable held container none item) :
    ∃ added after, arena.addItemToArray container item = .ok (added, after) ∧
      Accounted after.heap (if added then attached held container none item else held) ∧ after.answers = arena.answers ∧
      (container ≠ none → item ≠ none → container ≠ item → added = true) := by
  cases container with
  | none => exact ⟨false, arena, rfl, accounted, rfl, fun there => absurd rfl there⟩
  | some array =>
    cases item with
    | none => exact ⟨false, arena, rfl, accounted, rfl, fun _ there => absurd rfl there⟩
    | some item =>
      by_cases same : array = item
      · exact ⟨false, arena, if_pos same, accounted, rfl, fun _ _ apart => absurd (congrArg some same) apart⟩
      · obtain ⟨outer, foundArray, adopts⟩ := allowed.container array rfl
        obtain ⟨json, foundItem⟩ := Option.ne_none_iff_exists'.mp (allowed.item item rfl)
        obtain ⟨foot, holdings⟩ := accounted
        have still : Function.update held item none array = some outer := by rwa [Function.update_of_ne same]
        have taken := (holdings.take foundItem).take still
        rw [List.append_nil] at taken
        obtain ⟨after, added, answers, joined⟩ := taken.join (Function.update_self ..) (holdings.tree foundArray)
          (holdings.tree foundItem) (List.nodup_append'.mpr
            ⟨holdings.nodup foundArray, holdings.nodup foundItem, holdings.apart same foundArray foundItem⟩) (adopts json)
        rw [Function.update_idem] at joined
        refine ⟨true, after, added, ?_, answers, fun _ _ _ => rfl⟩
        simpa [attached, foundArray, foundItem] using joined

theorem addItemToObject_accounted (accounted : Accounted arena.heap held) {container item : Pointer} (name : Bytes)
    (allowed : Attachable held container (some name) item) :
    ∃ added after, arena.addItemToObject container name item = .ok (added, after) ∧
      Accounted after.heap (if added then attached held container (some name) item else held) ∧
      (arena.Granted → after.Granted ∧ (container ≠ none → item ≠ none → container ≠ item → added = true)) := by
  cases container with
  | none => exact ⟨false, arena, rfl, accounted, fun all => ⟨all, fun there => absurd rfl there⟩⟩
  | some object =>
    cases item with
    | none => exact ⟨false, arena, rfl, accounted, fun all => ⟨all, fun _ there => absurd rfl there⟩⟩
    | some item =>
      by_cases same : object = item
      · exact ⟨false, arena, if_pos same, accounted, fun all => ⟨all, fun _ _ apart => absurd (congrArg some same) apart⟩⟩
      · rcases allocate_cases arena (.chars name) with ⟨rest, refused, denied⟩ | ⟨rest, granted, further⟩
        · refine ⟨false, ⟨arena.heap, rest⟩, ?_, accounted, fun all => absurd all denied⟩
          rw [addItemToObject, if_neg same, strdup, refused]
        · obtain ⟨outer, foundObject, adopts⟩ := allowed.container object rfl
          obtain ⟨json, foundItem⟩ := Option.ne_none_iff_exists'.mp (allowed.item item rfl)
          obtain ⟨foot, holdings⟩ := accounted
          have still : Function.update held item none object = some outer := by rwa [Function.update_of_ne same]
          have taken := (holdings.take foundItem).take still
          rw [List.append_nil] at taken
          have once := List.nodup_append'.mpr
            ⟨holdings.nodup foundObject, holdings.nodup foundItem, holdings.apart same foundObject foundItem⟩
          obtain ⟨node, second, branch, loaded, unnamed, modified, answers, changed, stands, onceMore, kept⟩ :=
            taken.name (holdings.tree foundItem) once name rest
          obtain ⟨after, added, unasked, joined⟩ := changed.join (Function.update_self ..)
            ((holdings.tree foundObject).agrees kept) stands onceMore (adopts json)
          rw [Function.update_idem] at joined
          refine ⟨true, after, ?_, ?_, fun all => ⟨?_, fun _ _ _ => rfl⟩⟩
          · rw [addItemToObject, if_neg same, strdup, granted]
            dsimp only
            rw [item_of_load loaded, ok_bind, unnamed, deallocateIf_null, ok_bind, modified, ok_bind, added]
          · simpa [attached, foundObject, foundItem] using joined
          · rw [Granted, unasked, answers]
            exact further all

theorem addCreated_accounted {created : Arena} {item object : Pointer} {json : Json} (name : Bytes)
    (accounted : Accounted created.heap (hold item json held)) (absent : ∀ root ∈ item, held root = none)
    (allowed : Attachable held object (some name) none) :
    ∃ pointer after, addCreated (.ok (item, created)) object name = .ok (pointer, after) ∧
      Accounted after.heap (if pointer.isSome then grown held object (some name) json else held) ∧
      (created.Granted → item ≠ none → object ≠ none → pointer ≠ none ∧ after.Granted) := by
  -- An item that found no room is refused by the attach itself, whatever the object is.
  cases item with
  | none =>
    refine ⟨none, created, ?_, accounted, fun _ there => absurd rfl there⟩
    have refused : created.addItemToObject object name none = .ok (false, created) := by cases object <;> rfl
    rw [addCreated, ok_bind]
    dsimp only
    rw [refused, ok_bind]
    dsimp only
    rw [if_neg Bool.false_ne_true, delete, deleteWithin_none]
    rfl
  | some root =>
    have absent := absent root rfl
    have passes : Attachable (hold (some root) json held) object (some name) (some root) := by
      constructor
      · intro container isObject
        obtain ⟨outer, found, adopts⟩ := allowed.container container isObject
        have apart : container ≠ root := by
          rintro rfl
          cases absent.symm.trans found
        exact ⟨outer, by rwa [hold, Function.update_of_ne apart], adopts⟩
      · rintro root' ⟨⟩
        simp [hold]
    obtain ⟨added, second, called, after, further⟩ := addItemToObject_accounted accounted name passes
    cases added with
    | true =>
      refine ⟨some root, second, ?_, ?_, fun all _ _ => ⟨Option.some_ne_none _, (further all).1⟩⟩
      · rw [addCreated, ok_bind]
        dsimp only
        rw [called]
        rfl
      cases object with
      | none => cases called
      | some object =>
        obtain ⟨outer, found, -⟩ := allowed.container object rfl
        have apart : object ≠ root := by
          rintro rfl
          cases absent.symm.trans found
        simpa [attached, grown, hold, found, Function.update_of_ne apart, update_none_of_absent absent] using after
    | false =>
      -- The name found no room: the new item is still a root of its own and goes again.
      have isHeld : ∀ other ∈ (some root : Pointer), hold (some root) json held other ≠ none := by
        rintro other ⟨⟩
        simp [hold]
      obtain ⟨third, deleted, gone, answers⟩ := delete_accounted after isHeld
      refine ⟨none, third, ?_, ?_, fun all _ there => ?_⟩
      · rw [addCreated, ok_bind]
        dsimp only
        rw [called, ok_bind]
        simp only [Bool.false_eq_true, if_false, deleted]
        rfl
      · simpa [letGo, hold, update_none_of_absent absent] using gone
      · have added := (further all).2 there (Option.some_ne_none _) ?_
        · cases added
        · rintro rfl
          obtain ⟨outer, found, -⟩ := allowed.container root rfl
          cases absent.symm.trans found

end Arena

inductive Call where
  | createNull
  | createTrue
  | createFalse
  | createNumber (num : Rat)
  | createString (string : Bytes)
  | createArray
  | createObject
  | addItemToArray (array item : Pointer)
  | addItemToObject (object : Pointer) (name : Bytes) (item : Pointer)
  | addNumberToObject (object : Pointer) (name : Bytes) (number : Rat)
  | addStringToObject (object : Pointer) (name string : Bytes)
  | delete (item : Pointer)

/-- The memory, and what the caller holds by what its calls returned. -/
structure Session where
  arena : Arena
  held : Held

/-- A creating call, whose result is held. -/
def Session.made (held : Held) (json : Json) (created : Except Fault (Pointer × Arena)) : Except Fault Session := do
  let (pointer, arena) ← created
  return ⟨arena, hold pointer json held⟩

/-- A call that creates an item inside a container and returns null where it failed. -/
def Session.put (held : Held) (object : Pointer) (name : Bytes) (json : Json) (created : Except Fault (Pointer × Arena)) :
    Except Fault Session := do
  let (pointer, arena) ← created
  return ⟨arena, if pointer.isSome then grown held object (some name) json else held⟩

/-- A call that moves an item into a container and tells whether it did. -/
def Session.moved (held : Held) (container : Pointer) (key : Option Bytes) (item : Pointer)
    (added : Except Fault (Bool × Arena)) : Except Fault Session := do
  let (added, arena) ← added
  return ⟨arena, if added then attached held container key item else held⟩

def Session.step (session : Session) : Call → Except Fault Session
  | .createNull => made session.held .null session.arena.createNull
  | .createTrue => made session.held .true session.arena.createTrue
  | .createFalse => made session.held .false session.arena.createFalse
  | .createNumber num => made session.held (.number (saturated num)) (session.arena.createNumber num)
  | .createString string => made session.held (.string string) (session.arena.createString string)
  | .createArray => made session.held (.array []) session.arena.createArray
  | .createObject => made session.held (.object []) session.arena.createObject
  | .addItemToArray array item => moved session.held array none item (session.arena.addItemToArray array item)
  | .addItemToObject object name item =>
    moved session.held object (some name) item (session.arena.addItemToObject object name item)
  | .addNumberToObject object name number =>
    put session.held object name (.number (saturated number)) (session.arena.addNumberToObject object name number)
  | .addStringToObject object name string =>
    put session.held object name (.string string) (session.arena.addStringToObject object name string)
  | .delete item => do return ⟨← session.arena.delete item, letGo item session.held⟩

/-- The caller passes null or what it holds: arrays where an array is asked for, objects for an object. -/
def Session.Allowed (session : Session) : Call → Prop
  | .addItemToArray array item => Attachable session.held array none item
  | .addItemToObject object name item => Attachable session.held object (some name) item
  | .addNumberToObject object name _ => Attachable session.held object (some name) none
  | .addStringToObject object name _ => Attachable session.held object (some name) none
  | .delete item => ∀ root ∈ item, session.held root ≠ none
  | _ => True

section
variable {held : Held} {json : Json}

theorem Session.made_accounted {created : Except Fault (Pointer × Arena)} {promise : Pointer → Arena → Prop}
    (spec : ∃ pointer after, created = .ok (pointer, after) ∧ Accounted after.heap (hold pointer json held) ∧
      promise pointer after) : ∃ next, made held json created = .ok next ∧ Accounted next.arena.heap next.held := by
  obtain ⟨pointer, after, rfl, accounted, -⟩ := spec
  exact ⟨_, rfl, accounted⟩

theorem Session.put_accounted {created : Except Fault (Pointer × Arena)} {object : Pointer} (name : Bytes)
    {promise : Pointer → Arena → Prop} (allowed : Attachable held object (some name) none)
    (spec : ∃ pointer after, created = .ok (pointer, after) ∧ Accounted after.heap (hold pointer json held) ∧
      (∀ root ∈ pointer, held root = none) ∧ promise pointer after) :
    ∃ next, put held object name json (Arena.addCreated created object name) = .ok next ∧
      Accounted next.arena.heap next.held := by
  obtain ⟨pointer, after, rfl, accounted, absent, -⟩ := spec
  obtain ⟨result, last, called, lastly, -⟩ := Arena.addCreated_accounted name accounted absent allowed
  exact ⟨⟨last, _⟩, by rw [put, called]; rfl, lastly⟩

end

theorem Arena.createNumber_accounted {arena : Arena} {held : Held} (accounted : Accounted arena.heap held) (num : Rat) :
    ∃ pointer after, arena.createNumber num = .ok (pointer, after) ∧
      Accounted after.heap (hold pointer (.number (saturated num)) held) ∧ (∀ root ∈ pointer, held root = none) ∧
      (arena.Granted → pointer ≠ none ∧ after.Granted) :=
  create_accounted accounted _ ⟨rfl, rfl, rfl⟩ ⟨rfl, rfl⟩ rfl rfl (.number (saturated num))

theorem Arena.createArray_accounted {arena : Arena} {held : Held} (accounted : Accounted arena.heap held) :
    ∃ pointer after, arena.createArray = .ok (pointer, after) ∧ Accounted after.heap (hold pointer (.array []) held) ∧
      (∀ root ∈ pointer, held root = none) ∧ (arena.Granted → pointer ≠ none ∧ after.Granted) :=
  create_accounted accounted _ ⟨rfl, rfl, rfl⟩ ⟨rfl, rfl⟩ rfl rfl (.array [])

theorem Arena.createObject_accounted {arena : Arena} {held : Held} (accounted : Accounted arena.heap held) :
    ∃ pointer after, arena.createObject = .ok (pointer, after) ∧ Accounted after.heap (hold pointer (.object []) held) ∧
      (∀ root ∈ pointer, held root = none) ∧ (arena.Granted → pointer ≠ none ∧ after.Granted) :=
  create_accounted accounted _ ⟨rfl, rfl, rfl⟩ ⟨rfl, rfl⟩ rfl rfl (.object [])

/-- What every call keeps, whatever the allocator answers. -/
theorem step_accounted (session : Session) (call : Call) (accounted : Accounted session.arena.heap session.held)
    (allowed : session.Allowed call) :
    ∃ next, session.step call = .ok next ∧ Accounted next.arena.heap next.held := by
  cases call with
  | createNull =>
    exact Session.made_accounted (Arena.create_accounted accounted _ ⟨rfl, rfl, rfl⟩ ⟨rfl, rfl⟩ rfl rfl .null)
  | createTrue =>
    exact Session.made_accounted (Arena.create_accounted accounted _ ⟨rfl, rfl, rfl⟩ ⟨rfl, rfl⟩ rfl rfl .true)
  | createFalse =>
    exact Session.made_accounted (Arena.create_accounted accounted _ ⟨rfl, rfl, rfl⟩ ⟨rfl, rfl⟩ rfl rfl .false)
  | createNumber num => exact Session.made_accounted (Arena.createNumber_accounted accounted num)
  | createString string => exact Session.made_accounted (Arena.createString_accounted accounted string)
  | createArray => exact Session.made_accounted (Arena.createArray_accounted accounted)
  | createObject => exact Session.made_accounted (Arena.createObject_accounted accounted)
  | addItemToArray array item =>
    obtain ⟨added, after, called, next, -⟩ := Arena.addItemToArray_accounted accounted allowed
    exact ⟨⟨after, _⟩, by rw [Session.step, Session.moved, called]; rfl, next⟩
  | addItemToObject object name item =>
    obtain ⟨added, after, called, next, -⟩ := Arena.addItemToObject_accounted accounted name allowed
    exact ⟨⟨after, _⟩, by rw [Session.step, Session.moved, called]; rfl, next⟩
  | addNumberToObject object name number =>
    exact Session.put_accounted name allowed (Arena.createNumber_accounted accounted number)
  | addStringToObject object name string =>
    exact Session.put_accounted name allowed (Arena.createString_accounted accounted string)
  | delete item =>
    obtain ⟨after, called, next, -⟩ := Arena.delete_accounted accounted allowed
    exact ⟨⟨after, _⟩, by rw [Session.step, called]; rfl, next⟩

/-- Over any calls that pass only what is held, and whichever allocations fail, no access faults; then
every held root stands for its tree, apart from the others, and no live block is without a root. -/
theorem calls_accounted (answers : List Bool) (calls : List Call)
    (allowed : Along Session.step Session.Allowed ⟨⟨Heap.empty, answers⟩, fun _ => none⟩ calls) :
    ∃ final, run Session.step ⟨⟨Heap.empty, answers⟩, fun _ => none⟩ calls = .ok final ∧
      Accounted final.arena.heap final.held ∧
      ((∀ root, final.held root = none) → ∀ address, ¬ final.arena.heap.Live address) := by
  obtain ⟨final, reached, accounted⟩ := run_succeeds step_accounted accounted_empty allowed
  exact ⟨final, reached, accounted, accounted.released⟩

/-- The fourth allocation is refused, that of the key of the first member. -/
theorem calls_accounted_refused : ∃ final, run Session.step ⟨⟨Heap.empty, [true, true, true, false]⟩, fun _ => none⟩
      [.createObject, .addStringToObject (some 0) [97] [98], .createNull, .addItemToObject (some 0) [97] (some 3),
        .delete (some 0)] = .ok final ∧
    Accounted final.arena.heap final.held ∧
      ((∀ root, final.held root = none) → ∀ address, ¬ final.arena.heap.Live address) := by
  refine calls_accounted _ _ ⟨trivial, fun first taken => ?_⟩
  cases taken
  refine ⟨⟨?_, fun _ none => nomatch none⟩, fun second taken => ?_⟩
  · rintro root ⟨⟩
    exact ⟨.object [], rfl, fun json => .object [97] json []⟩
  cases taken
  refine ⟨trivial, fun third taken => ?_⟩
  cases taken
  refine ⟨⟨?_, ?_⟩, fun fourth taken => ?_⟩
  · rintro root ⟨⟩
    exact ⟨.object [], rfl, fun json => .object [97] json []⟩
  · rintro root ⟨⟩
    exact Option.some_ne_none Json.null
  cases taken
  refine ⟨?_, fun _ _ => trivial⟩
  rintro root ⟨⟩
  exact Option.some_ne_none (Json.object [([97], .null)])

end Trigger.CJson
