import OpenSpeedShop.Cli.SavedViewFiles
import Mathlib.Data.List.Infix

/-!
The saved view of a command on a valid experiment that is not running: the key that stands for the
command, and the search for a view with this key.
-/

namespace OpenSpeedShop.SavedViewKeys

open CString (upToNul)
open SavedViewFiles (SavedViewInfo newInfo)

def ascii (text : String) : List UInt8 := text.toList.map fun char => char.toNat.toUInt8

def toLower (char : UInt8) : UInt8 := if 65 ≤ char ∧ char ≤ 90 then char + 32 else char

def strcasestr (haystack needle : List UInt8) : Option (List UInt8) :=
  (upToNul 0 haystack).tails.find? fun rest => needle.map toLower <+: rest.map toLower

def isolateCommand (cmdstr : List UInt8) : Option (List UInt8) :=
  let cidx := strcasestr cmdstr (ascii "cView")
  let cidx := cidx.or (strcasestr cmdstr (ascii "expView"))
  let cidx := cidx.or (strcasestr cmdstr (ascii "expCompare"))
  -- A command that was found is taken for one that is not to be saved.
  if cidx.isSome then none
  else
    let cidx := strcasestr cmdstr (ascii " cviewCluster")
    if cidx.isSome then none
    else strcasestr cmdstr (ascii " cView")

/-- The last place but the first one with a character. -/
def lastPlace (holds : UInt8 → Bool) (text : List UInt8) : Option Nat :=
  ((List.range text.length).filter fun place => place ≠ 0 && holds (text.getD place 0)).getLast?

def removeNewline (cmdstr : List UInt8) : List UInt8 :=
  match lastPlace (· = 10) cmdstr with
  | some place => cmdstr.take place
  | none => cmdstr

def removeRedirection (cmdstr : List UInt8) : List UInt8 :=
  match lastPlace (· = 62) cmdstr with
  | some place => cmdstr.take (place - 1)
  | none => cmdstr

/-- With the blanks the last other character goes. -/
def removeBlanks (cmdstr : List UInt8) : List UInt8 :=
  match lastPlace (· ≠ 32) cmdstr with
  | some place => if place ≠ cmdstr.length - 1 then cmdstr.take place else cmdstr
  | none => cmdstr

def inIdList (char : UInt8) : Bool :=
  char = 32 || char = 44 || char = 58 || (48 ≤ char && char ≤ 57)

/-- The loop reads the text that `cmdstr` had before it; `substr` throws behind the end. -/
def removeExpIds (cidx : List UInt8) : (fuel xat priorEndOfField : Nat) → List UInt8 → Option (List UInt8)
  | 0, _, _, cmdstr => some cmdstr
  | fuel + 1, xat, priorEndOfField, cmdstr =>
    if xat < cmdstr.length - 1 then
      let priorEndOfField := if cidx.getD xat 0 ≠ 32 then priorEndOfField + 1 else priorEndOfField
      if ((cidx.drop xat).take 2).map toLower = ascii "-x" then
        let toc := xat + 2 + (((cidx.drop (xat + 2)).take (cmdstr.length - 1 - (xat + 2))).takeWhile
          inIdList).length
        if toc ≤ cmdstr.length then
          removeExpIds cidx fuel (xat + 1) priorEndOfField
            (cmdstr.take priorEndOfField ++ (cmdstr.drop toc).take (cmdstr.length - 1))
        else none
      else removeExpIds cidx fuel (xat + 1) priorEndOfField cmdstr
    else some cmdstr

/-- The flag says that there are several experiments or `-c` items. -/
structure Command where
  cmdstr : List UInt8
  eocMarker : List UInt8
  eolMarker : List UInt8
  localTag : List UInt8
  saveOnlyForCurrentSession : Bool

def keyOf (command : Command) : Option (List UInt8) := do
  let cmdstr ← isolateCommand command.cmdstr
  let cmdstr := removeBlanks (removeRedirection (removeNewline cmdstr))
  let cmdstr ← if command.saveOnlyForCurrentSession then some cmdstr
    else removeExpIds cmdstr cmdstr.length 0 0 cmdstr
  return if command.localTag.isEmpty then cmdstr else cmdstr ++ 32 :: command.localTag

def headerMatches (view : SavedViewInfo) (eocStr eolStr cmdStr : List UInt8) : Bool :=
  view.eocMarker = eocStr && view.eolMarker = eolStr && view.originalCmd = cmdStr

inductive Answer
  | existing (view : SavedViewInfo)
  | new (view : SavedViewInfo) (removeEntryAtSessionEnd : Bool)

/-- The views are given with whether they are complete and their files can be read. -/
def findSavedView (command : Command) (endTime : UInt64) (views : List (SavedViewInfo × Bool))
    (freeSlot : Bool) : Option Answer := do
  let cmdstr ← keyOf command
  match views.find? fun view =>
      view.2 && headerMatches view.1 command.eocMarker command.eolMarker cmdstr with
  | some view => return .existing view.1
  | none =>
    if freeSlot then
      return .new (newInfo cmdstr command.eocMarker command.eolMarker endTime 0)
        (command.saveOnlyForCurrentSession || !command.localTag.isEmpty)
    else none

/-- The command has a key, under which a view that was saved is found. -/
def FoundAgain (command : Command) : Prop :=
  ∃ key, keyOf command = some key ∧ ∀ endTime views freeSlot,
    (∃ view ∈ views, view.2 = true ∧ headerMatches view.1 command.eocMarker command.eolMarker key = true) →
    ∃ view, findSavedView command endTime views freeSlot = some (.existing view) ∧
      headerMatches view command.eocMarker command.eolMarker key = true

theorem strcasestr_isSome {haystack needle : List UInt8} : (strcasestr haystack needle).isSome ↔
    needle.map toLower <:+: (upToNul 0 haystack).map toLower := by
  rw [strcasestr, List.find?_isSome]
  constructor
  · rintro ⟨rest, tail, found⟩
    have front : needle.map toLower <+: rest.map toLower := of_decide_eq_true found
    exact front.isInfix.trans (((List.mem_tails _ _).mp tail).map toLower).isInfix
  · intro inside
    obtain ⟨rest, front, tail⟩ := List.infix_iff_prefix_suffix.mp inside
    obtain ⟨rest, suffix, rfl⟩ := List.suffix_map_iff.mp tail
    exact ⟨rest, (List.mem_tails _ _).mpr suffix, decide_eq_true front⟩

/-- What only the last search would find, the first one has found. -/
theorem isolateCommand_eq_none (cmdstr : List UInt8) : isolateCommand cmdstr = none := by
  unfold isolateCommand
  dsimp only
  split
  · rfl
  · next unknown =>
      split
      · rfl
      · refine Option.eq_none_iff_forall_ne_some.mpr fun rest found => unknown ?_
        have blank : (strcasestr cmdstr (ascii " cView")).isSome := by rw [found]; rfl
        have inner : (ascii "cView").map toLower <:+: (ascii " cView").map toLower := by decide
        have early : (strcasestr cmdstr (ascii "cView")).isSome :=
          strcasestr_isSome.mpr (inner.trans (strcasestr_isSome.mp blank))
        simp [early]

/-- No command has a key, so that no view is found or saved. -/
theorem foundAgain_never (command : Command) : ¬ FoundAgain command ∧
    ∀ endTime views freeSlot, findSavedView command endTime views freeSlot = none := by
  have keyless : keyOf command = none := by rw [keyOf, isolateCommand_eq_none]; rfl
  refine ⟨?_, fun endTime views freeSlot => by rw [findSavedView, keyless]; rfl⟩
  rintro ⟨key, has, -⟩
  cases keyless.symm.trans has

theorem expView_not_found : ¬ FoundAgain ⟨ascii "expView -x 1", [32], [10], [], false⟩ := by
  rintro ⟨key, has, -⟩
  have keyless : keyOf ⟨ascii "expView -x 1", [32], [10], [], false⟩ = none := by decide
  cases keyless.symm.trans has

end OpenSpeedShop.SavedViewKeys
