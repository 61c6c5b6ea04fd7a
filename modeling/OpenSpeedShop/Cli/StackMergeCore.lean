import OpenSpeedShop.Cli.CallStacksCore

/-!
Call-stack rows that are combined, with the types of their stack entries and with temps
that may be null.
-/

namespace OpenSpeedShop.StackMerge

open CallStacks (CallRow packVectorElements)
open MetricExpressions (ViewInstruction)

inductive StackEntry (Function LinkedObject : Type)
  | function (function : Function) (line column : Int)
  | linkedObject (linkedObject : LinkedObject) (offset : Nat)
  | address (value : Nat)
  | uint (value : Nat)
  | string (value : String)
deriving DecidableEq

abbrev StackRow (Function LinkedObject Value : Type) :=
  CallRow (StackEntry Function LinkedObject) (Option Value)

variable {Function LinkedObject Value : Type}

section

variable [DecidableEq Function] [DecidableEq LinkedObject]

def matchEntry : StackEntry Function LinkedObject → StackEntry Function LinkedObject → Bool
  | .function function line column, .function nfunction nline ncolumn =>
    decide (function = nfunction) && decide (line = nline) &&
      (decide (column = 0) || decide (ncolumn = 0) || decide (column = ncolumn))
  | .linkedObject linkedObject offset, .linkedObject nlinkedObject noffset =>
    decide (offset = noffset) && decide (linkedObject = nlinkedObject)
  | .address value, .address nvalue => decide (value = nvalue)
  | .uint value, .uint nvalue => decide (value = nvalue)
  | .string value, .string nvalue => decide (value = nvalue)
  | _, _ => false

def matchCallStack (cs ncs : List (StackEntry Function LinkedObject)) : Int :=
  let minsz := min cs.length ncs.length
  let place := (cs.zip ncs).findIdx fun entries => !matchEntry entries.1 entries.2
  if place < minsz then (place : Int) - 1 else minsz

end

def matchFieldRequirements (iv : List (ViewInstruction Value)) (a b : List (Option Value)) : Bool :=
  iv.all fun vp => !(vp.opCode = .requireFieldEqual ∧ 0 ≤ vp.tmpIndex1 ∧
    a[vp.tmpIndex1.toNat]?.join.isSome ∧ b[vp.tmpIndex1.toNat]?.join.isSome)

section

variable [Add Value] [Min Value] [Max Value]

def accumulator (vp : ViewInstruction Value) : Option (Value → Value → Value) :=
  match vp.opCode with
  | .add => some (· + ·)
  | .min => some min
  | .max => some max
  | .expression => some max
  | _ => none

def accumulateTemp (vp : Option (ViewInstruction Value)) : Option Value → Option Value → Option (Option Value)
  | none, none => some none
  | a, b =>
    match vp.bind accumulator with
    | none => some a
    | some accumulate =>
      match a, b with
      | some a, some b => some (some (accumulate a b))
      | _, _ => none

def accumulatePreDefinedTemps : List (Option (ViewInstruction Value)) → List (Option Value) →
    List (Option Value) → Option (List (Option Value))
  | vp :: iv, a :: as, b :: bs => do
      let a ← accumulateTemp vp a b
      let as ← accumulatePreDefinedTemps iv as bs
      return a :: as
  | _ :: _, _ :: _, [] => none
  | _, as, _ => some as

variable [DecidableEq Function] [DecidableEq LinkedObject]
variable (iv : List (Option (ViewInstruction Value))) (fieldRequirements : List (ViewInstruction Value))

def isDuplicate (cp ncp : StackRow Function LinkedObject Value) : Bool :=
  let matchcount := matchCallStack cp.stack ncp.stack
  decide (matchcount ≥ 0) && decide (matchcount = cp.stack.length) &&
    decide (matchcount = ncp.stack.length) &&
    matchFieldRequirements fieldRequirements cp.second ncp.second

def combineEntry : StackRow Function LinkedObject Value →
    List (Option (StackRow Function LinkedObject Value)) →
    Option (StackRow Function LinkedObject Value × List (Option (StackRow Function LinkedObject Value)))
  | cp, [] => some (cp, [])
  | cp, none :: rest => do
      let (cp, rest) ← combineEntry cp rest
      return (cp, none :: rest)
  | cp, some ncp :: rest =>
    if cp.stack.length > ncp.stack.length then some (cp, some ncp :: rest)
    else if cp.stack.length ≠ ncp.stack.length then do
      let (cp, rest) ← combineEntry cp rest
      return (cp, some ncp :: rest)
    else if isDuplicate fieldRequirements cp ncp then do
      let second ← accumulatePreDefinedTemps iv cp.second ncp.second
      let (cp, rest) ← combineEntry { cp with second := second } rest
      return (cp, none :: rest)
    else do
      let (cp, rest) ← combineEntry cp rest
      return (cp, some ncp :: rest)

def combineEntries : Nat → List (Option (StackRow Function LinkedObject Value)) →
    Option (List (Option (StackRow Function LinkedObject Value)))
  | 0, items => some items
  | _ + 1, [] => some []
  | n + 1, none :: rest => do
      let rest ← combineEntries n rest
      return none :: rest
  | n + 1, some cp :: rest => do
      let (cp, rest) ← combineEntry iv fieldRequirements cp rest
      let rest ← combineEntries n rest
      return some cp :: rest

def combineDuplicateCallStacks (items : List (StackRow Function LinkedObject Value)) :
    Option (List (StackRow Function LinkedObject Value)) := do
  let items ← combineEntries iv fieldRequirements items.length (items.map some)
  return packVectorElements items.length items

def combineShortStacks (items : List (StackRow Function LinkedObject Value)) :
    Option (List (StackRow Function LinkedObject Value)) := do
  let items ← combineEntries iv fieldRequirements items.length (items.map some)
  return packVectorElements items.length items

end

end OpenSpeedShop.StackMerge
