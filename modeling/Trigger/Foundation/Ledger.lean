import Mathlib.Data.List.Basic
import Mathlib.Data.List.Infix
import Mathlib.Tactic.Common

/-! What a program has created and released.

An object is its position in the order of creation, so a new object is never an old
one. The ledger only records; which release is right is a matter of its user.
-/

set_option autoImplicit false

namespace Trigger.Foundation

structure Ledger (Kind : Type) where
  created : List Kind
  released : List Nat
  deriving DecidableEq

variable {Kind : Type}

def Ledger.empty : Ledger Kind := ⟨[], []⟩

def Ledger.create (ledger : Ledger Kind) (kind : Kind) : Nat × Ledger Kind :=
  (ledger.created.length, { ledger with created := ledger.created ++ [kind] })

def Ledger.release (ledger : Ledger Kind) (object : Nat) : Ledger Kind :=
  { ledger with released := ledger.released ++ [object] }

def Ledger.Holds (ledger : Ledger Kind) (object : Nat) (kind : Kind) : Prop := ledger.created[object]? = some kind

structure Ledger.Live (ledger : Ledger Kind) (object : Nat) (kind : Kind) : Prop where
  holds : ledger.Holds object kind
  kept : object ∉ ledger.released

def Ledger.AtMostOne (ledger : Ledger Kind) (kind : Kind) : Prop :=
  ∀ first second, ledger.Live first kind → ledger.Live second kind → first = second

/-- Every object that was created was released exactly once. -/
def Ledger.Balanced (ledger : Ledger Kind) : Prop :=
  ∀ object < ledger.created.length, ledger.released.count object = 1

structure Ledger.Extends (after before : Ledger Kind) : Prop where
  created : before.created <+: after.created
  released : after.released = before.released

namespace Ledger

variable {ledger before after : Ledger Kind} {object : Nat} {kind : Kind}

theorem Extends.refl (ledger : Ledger Kind) : ledger.Extends ledger := ⟨List.prefix_rfl, rfl⟩

theorem Extends.trans {last : Ledger Kind} (later : last.Extends after) (earlier : after.Extends before) :
    last.Extends before :=
  ⟨earlier.created.trans later.created, later.released.trans earlier.released⟩

theorem create_extends (ledger : Ledger Kind) (kind : Kind) : (ledger.create kind).2.Extends ledger :=
  ⟨List.prefix_append .., rfl⟩

theorem create_holds (ledger : Ledger Kind) (kind : Kind) : (ledger.create kind).2.Holds (ledger.create kind).1 kind :=
  List.getElem?_concat_length

theorem Holds.lt (holds : ledger.Holds object kind) : object < ledger.created.length :=
  (List.getElem?_eq_some_iff.mp holds).1

theorem Extends.holds (extend : after.Extends before) (holds : before.Holds object kind) : after.Holds object kind := by
  obtain ⟨more, same⟩ := extend.created
  rw [Holds, ← same, List.getElem?_append_left holds.lt]
  exact holds

theorem Extends.live (extend : after.Extends before) (live : before.Live object kind) : after.Live object kind :=
  ⟨extend.holds live.holds, extend.released ▸ live.kept⟩

theorem Holds.same_kind {other : Kind} (holds : ledger.Holds object kind) (also : ledger.Holds object other) :
    kind = other :=
  Option.some.inj (holds.symm.trans also)

end Ledger

end Trigger.Foundation
