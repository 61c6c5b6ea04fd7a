import Mathlib.Data.Finset.Card
import OpenSpeedShop.Library.Runs

/-!
Smart pointers and the structures that count them. While an assignment deletes the last reference to an
object, what its destructor does comes first.
-/

namespace OpenSpeedShop

structure SmartPtr where
  dmObject : Option Nat
  dmBookkeeping : Nat
deriving DecidableEq, Inhabited

namespace SmartPtr

/-- The places that hold a smart pointer, the reference counts, and the assignments that have only
released their left-hand side. `fault` tells that memory was used which does not exist any more. -/
structure Heap where
  constructed : Finset Nat
  value : Nat → SmartPtr
  references : Nat → Option UInt32
  deleted : List Nat
  nextObject : Nat
  nextBookkeeping : Nat
  assigning : List (Nat × Nat)
  fault : Bool

namespace Heap

def initial : Heap := ⟨∅, default, fun _ => none, [], 0, 0, [], false⟩

/-- `dm_bookkeeping->dm_references++;` -/
def increment (heap : Heap) (bookkeeping : Nat) : Heap :=
  match heap.references bookkeeping with
  | none => { heap with fault := true }
  | some references =>
    { heap with
      references := Function.update heap.references bookkeeping (some (references + 1)) }

/-- `--dm_bookkeeping->dm_references`, which deletes the object and the bookkeeping structure
of the last reference, and tells so. -/
def decrement (heap : Heap) (self : SmartPtr) : Bool × Heap :=
  match heap.references self.dmBookkeeping with
  | none => (false, { heap with fault := true })
  | some references =>
    if references - 1 = 0 then
      (true, { heap with
        references := Function.update heap.references self.dmBookkeeping none
        deleted := heap.deleted ++ self.dmObject.toList })
    else
      (false, { heap with
        references :=
          Function.update heap.references self.dmBookkeeping (some (references - 1)) })

def write (heap : Heap) (place : Nat) (self : SmartPtr) : Heap :=
  { heap with value := Function.update heap.value place self }

def fresh (heap : Heap) (isNull : Bool) : SmartPtr :=
  ⟨if isNull then none else some heap.nextObject, heap.nextBookkeeping⟩

def construct (heap : Heap) (self : Nat) (isNull : Bool) : Heap :=
  { heap.write self (heap.fresh isNull) with
    constructed := insert self heap.constructed
    references := Function.update heap.references heap.nextBookkeeping (some 1)
    nextObject := if isNull then heap.nextObject else heap.nextObject + 1
    nextBookkeeping := heap.nextBookkeeping + 1 }

def take (heap : Heap) (self other : Nat) : Heap :=
  (heap.write self (heap.value other)).increment (heap.value other).dmBookkeeping

def copy (heap : Heap) (self other : Nat) : Heap :=
  { heap with constructed := insert self heap.constructed }.take self other

def destroy (heap : Heap) (self : Nat) : Heap :=
  { (heap.decrement (heap.value self)).2 with constructed := heap.constructed.erase self }

def replace (heap : Heap) (self other : Nat) : Heap :=
  if self ∈ heap.constructed ∧ other ∈ heap.constructed then heap.take self other
  else { heap with fault := true }

def assign (heap : Heap) (self other : Nat) : Heap :=
  if (heap.value self).dmObject ≠ (heap.value other).dmObject then
    let released := heap.decrement (heap.value self)
    if released.1 && (heap.value self).dmObject.isSome then
      { released.2 with assigning := (self, other) :: heap.assigning }
    else released.2.replace self other
  else heap

end Heap

inductive Step
  | construct (self : Nat) (isNull : Bool)
  | copy (self other : Nat)
  | assign (self other : Nat)
  | finishAssign
  | destroy (self : Nat)
deriving DecidableEq

/-- What a program may do: it constructs where there is no smart pointer, uses those that are
constructed, and ends its assignments from the inside to the outside. -/
def step (heap : Heap) : Step → Option Heap
  | .construct self isNull =>
    if self ∈ heap.constructed then none else some (heap.construct self isNull)
  | .copy self other =>
    if self ∉ heap.constructed ∧ other ∈ heap.constructed then some (heap.copy self other)
    else none
  | .assign self other =>
    if self ∈ heap.constructed ∧ other ∈ heap.constructed then some (heap.assign self other)
    else none
  | .finishAssign =>
    match heap.assigning with
    | [] => none
    | (self, other) :: rest => some ({ heap with assigning := rest }.replace self other)
  | .destroy self => if self ∈ heap.constructed then some (heap.destroy self) else none

end SmartPtr

end OpenSpeedShop
