import OpenSpeedShop.Cli.MetricExpressionsCore
import Mathlib.Algebra.BigOperators.Group.List.Basic
import Mathlib.Data.List.Range

/-!
Call stacks in a report: every stack is expanded into its prefixes, and rows with the same stack are
combined in place. No temp is null.
-/

namespace OpenSpeedShop.CallStacks

open MetricExpressions (ViewInstruction)

structure CallStackEntry (Frame : Type) where
  callStack : List Frame
  traceBackOrder : Bool
deriving DecidableEq

structure CallRow (Frame Value : Type) where
  first : CallStackEntry Frame
  second : List Value
deriving DecidableEq

def CallRow.stack {Frame Value : Type} (row : CallRow Frame Value) : List Frame :=
  row.first.callStack

variable {Frame Value : Type}

section

variable [Zero Value]

def dupCRVector (iv : List (ViewInstruction Value)) (crv : List Value) : List Value :=
  crv.mapIdx fun j value =>
    if iv.any fun vp => vp.opCode = .stackExpand ∧ vp.tmpIndex1 = j then value else 0

def dupCallStack (len : Nat) (cs : List Frame) : List Frame :=
  cs.take len

def expandRow (traceBackOrder : Bool) (iv : List (ViewInstruction Value))
    (cp : CallRow Frame Value) : List (CallRow Frame Value) :=
  (List.range' 1 (cp.stack.length - 1)).map (fun i =>
    ⟨⟨dupCallStack i cp.stack, traceBackOrder⟩, dupCRVector iv cp.second⟩) ++ [cp]

def expandCallStack (traceBackOrder : Bool) (iv : List (ViewInstruction Value))
    (items : List (CallRow Frame Value)) : List (CallRow Frame Value) :=
  items.flatMap (expandRow traceBackOrder iv)

end

section

variable [DecidableEq Frame] [Add Value] [Min Value] [Max Value]

def matchCallStack (cs ncs : List Frame) : Int :=
  let minsz := min cs.length ncs.length
  let place := (cs.zip ncs).findIdx fun frames => frames.1 ≠ frames.2
  if place < minsz then (place : Int) - 1 else minsz

def matchFieldRequirements (iv : List (ViewInstruction Value)) (a b : List Value) : Bool :=
  iv.all fun vp => !(vp.opCode = .requireFieldEqual ∧ 0 ≤ vp.tmpIndex1 ∧
    vp.tmpIndex1 < a.length ∧ vp.tmpIndex1 < b.length)

def accumulateTemp (vp : Option (ViewInstruction Value)) (a b : Value) : Value :=
  match vp.map ViewInstruction.opCode with
  | some .add => a + b
  | some .min => min a b
  | some .max => max a b
  | some .expression => max a b
  | _ => a

def accumulatePreDefinedTemps (iv : List (Option (ViewInstruction Value))) (a b : List Value) : List Value :=
  a.mapIdx fun i value =>
    match iv[i]?, b[i]? with
    | some vp, some other => accumulateTemp vp value other
    | _, _ => value

variable (iv : List (Option (ViewInstruction Value))) (fieldRequirements : List (ViewInstruction Value))

def combineEntry : CallRow Frame Value → List (Option (CallRow Frame Value)) →
    CallRow Frame Value × List (Option (CallRow Frame Value))
  | cp, [] => (cp, [])
  | cp, none :: rest =>
    let (cp, rest) := combineEntry cp rest
    (cp, none :: rest)
  | cp, some ncp :: rest =>
    if ncp.stack.length < cp.stack.length then (cp, some ncp :: rest)
    else if cp.stack.length ≠ ncp.stack.length then
      let (cp, rest) := combineEntry cp rest
      (cp, some ncp :: rest)
    else
      let matchcount := matchCallStack cp.stack ncp.stack
      if 0 ≤ matchcount ∧ matchcount = cp.stack.length ∧ matchcount = ncp.stack.length ∧
          matchFieldRequirements fieldRequirements cp.second ncp.second then
        let cp := { cp with second := accumulatePreDefinedTemps iv cp.second ncp.second }
        let (cp, rest) := combineEntry cp rest
        (cp, none :: rest)
      else
        let (cp, rest) := combineEntry cp rest
        (cp, some ncp :: rest)

def combineEntries : Nat → List (Option (CallRow Frame Value)) → List (Option (CallRow Frame Value))
  | 0, items => items
  | _ + 1, [] => []
  | n + 1, none :: rest => none :: combineEntries n rest
  | n + 1, some cp :: rest =>
    let (cp, rest) := combineEntry iv fieldRequirements cp rest
    some cp :: combineEntries n rest

end

def takeNonNull {Item : Type} : List (Option Item) → Option (Item × List (Option Item))
  | [] => none
  | some item :: rest => some (item, none :: rest)
  | none :: rest => (takeNonNull rest).map fun (item, rest) => (item, none :: rest)

def packVectorElements {Item : Type} : Nat → List (Option Item) → List Item
  | 0, _ => []
  | _ + 1, [] => []
  | n + 1, some item :: rest => item :: packVectorElements n rest
  | n + 1, none :: rest =>
    match takeNonNull rest with
    | some (item, rest) => item :: packVectorElements n rest
    | none => []

def combineDuplicateCallStacks [DecidableEq Frame] [Add Value] [Min Value] [Max Value]
    (iv : List (Option (ViewInstruction Value))) (fieldRequirements : List (ViewInstruction Value))
    (items : List (CallRow Frame Value)) : List (CallRow Frame Value) :=
  packVectorElements items.length (combineEntries iv fieldRequirements items.length (items.map some))

end OpenSpeedShop.CallStacks
