import OpenSpeedShop.Cli.StackMergeCore

/-!
The items of a butterfly view around one function: its callers, the function itself and
the functions it calls.
-/

namespace OpenSpeedShop.PivotItems

open MetricExpressions (ViewInstruction)
open StackMerge

variable {Function LinkedObject Value : Type}

def copyCallStackEntry (idx : Nat) (bias : Int) (cs : List (StackEntry Function LinkedObject)) :
    List (StackEntry Function LinkedObject) :=
  (if bias < 0 then .string "" :: cs[idx - 1]?.toList else []) ++
    (if bias = 0 then cs[idx]?.toList else []) ++
    if bias > 0 then .string "" :: cs[idx + 1]?.toList else []

section

variable [DecidableEq Function]

def isCall (func : Function) : StackEntry Function LinkedObject → Bool
  | .function function _ _ => decide (function = func)
  | _ => false

structure PivotState (Function LinkedObject Value : Type) where
  pivot : Option (StackRow Function LinkedObject Value)
  pred : List (StackRow Function LinkedObject Value)
  succ : List (StackRow Function LinkedObject Value)

variable [Add Value] [Min Value] [Max Value] (iv : List (Option (ViewInstruction Value)))
  (traceBackOrder : Bool) (func : Function)

def pivotStep (state : PivotState Function LinkedObject Value)
    (cp : StackRow Function LinkedObject Value) :
    Option (PivotState Function LinkedObject Value) :=
  match cp.stack.findIdx? (isCall func) with
  | none => some state
  | some i => do
      let pivot ← match state.pivot with
        | none => some ⟨⟨copyCallStackEntry i 0 cp.stack, traceBackOrder⟩, cp.second⟩
        | some pivot => (accumulatePreDefinedTemps iv pivot.second cp.second).map fun second =>
          { pivot with second := second }
      return {
        pivot := some pivot
        pred := if i ≠ 0 then
            state.pred ++ [⟨⟨copyCallStackEntry i (-1) cp.stack, !traceBackOrder⟩, cp.second⟩]
          else state.pred
        succ := if i + 1 < cp.stack.length then
            state.succ ++ [⟨⟨copyCallStackEntry i 1 cp.stack, traceBackOrder⟩, cp.second⟩]
          else state.succ }

variable [DecidableEq LinkedObject] (fieldRequirements : List (ViewInstruction Value))

def combinePart (part : List (StackRow Function LinkedObject Value)) :
    Option (List (StackRow Function LinkedObject Value)) :=
  if part.isEmpty then some [] else combineShortStacks iv fieldRequirements part

def extractPivotItems (items result : List (StackRow Function LinkedObject Value)) :
    Option (List (StackRow Function LinkedObject Value)) := do
  let state ← items.foldlM (pivotStep iv traceBackOrder func) ⟨none, [], []⟩
  match state.pivot with
  | none => return result
  | some pivot => do
      let pred ← combinePart iv fieldRequirements state.pred
      let succ ← combinePart iv fieldRequirements state.succ
      return result ++ pred ++ [pivot] ++ succ

end

end OpenSpeedShop.PivotItems
