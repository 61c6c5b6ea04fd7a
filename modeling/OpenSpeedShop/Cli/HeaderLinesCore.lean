import OpenSpeedShop.Library.PlaceScan

/-!
The header of a report, whose columns are broken into lines.
-/

namespace OpenSpeedShop.HeaderLines

open PlaceScan (scan le_scan scan_le)

abbrev Text := List Char

def isBlank (char : Char) : Bool := char = ' '

/-- `while (S[place] == *" ") place++;` -/
def skipBlanks (text : Text) (place : Nat) : Nat := scan isBlank text place

def nextBreak (text : Text) (startScan : Nat) : Nat := scan (!isBlank ·) text startScan

/-- `while ((end_segment > start_segment) && (S[end_segment] == *" ")) end_segment--;` -/
def withoutTrailing (text : Text) (startSegment : Nat) : Nat → Nat
  | 0 => 0
  | endSegment + 1 =>
    if startSegment < endSegment + 1 ∧ text[endSegment + 1]? = some ' ' then
      withoutTrailing text startSegment endSegment
    else endSegment + 1

def breakFrom (text : Text) (start startSegment useColumnsize endSegment : Nat) : Int :=
  if endSegment < text.length then
    let next := nextBreak text (endSegment + 1)
    if (next : Int) - startSegment > useColumnsize then
      let endSegment := withoutTrailing text startSegment endSegment
      if startSegment = endSegment then start + useColumnsize else endSegment
    else breakFrom text start startSegment useColumnsize next
  else text.length - 1
termination_by text.length - endSegment
decreasing_by
  have later : endSegment + 1 ≤ nextBreak text (endSegment + 1) := le_scan
  omega

def breakAt (text : Text) (start useColumnsize : Nat) : Int :=
  breakFrom text start (skipBlanks text start) useColumnsize start

/-- `Break_At (S, start, use_columnsize) + 1` -/
def nextScan (text : Text) (start useColumnsize : Nat) : Nat :=
  (breakAt text start useColumnsize + 1).toNat

theorem le_withoutTrailing (text : Text) {startSegment : Nat} : ∀ {endSegment start : Nat},
    start ≤ startSegment → start ≤ endSegment → start ≤ withoutTrailing text startSegment endSegment := by
  intro endSegment
  induction endSegment with
  | zero => exact fun _ lower => lower
  | succ endSegment ih =>
    intro start first lower
    rw [withoutTrailing]
    split
    · exact ih first (by omega)
    · exact lower

theorem start_le_breakFrom {text : Text} {start startSegment useColumnsize : Nat}
    (inside : start < text.length) (first : start ≤ startSegment) (endSegment : Nat)
    (lower : start ≤ endSegment) : start ≤ breakFrom text start startSegment useColumnsize endSegment := by
  fun_induction breakFrom text start startSegment useColumnsize endSegment with
  | case1 => omega
  | case2 endSegment =>
    have trimmed := le_withoutTrailing text first lower
    omega
  | case3 endSegment _ next _ ih =>
    have later : endSegment + 1 ≤ next := le_scan
    exact ih (by omega)
  | case4 => omega

theorem lt_nextScan {text : Text} {start useColumnsize : Nat} (inside : start < text.length) :
    start < nextScan text start useColumnsize := by
  have first : start ≤ skipBlanks text start := le_scan
  have lower := @start_le_breakFrom text start _ useColumnsize inside first start (Nat.le_refl _)
  unfold nextScan breakAt
  omega

theorem nextScan_end (text : Text) {start : Nat} (useColumnsize : Nat)
    (past : start = text.length) : nextScan text start useColumnsize = text.length := by
  unfold nextScan breakAt
  rw [breakFrom, if_neg (by omega)]
  omega

def countFrom (text : Text) (useColumnsize startScan : Nat) : Nat :=
  if startScan < text.length then
    countFrom text useColumnsize (nextScan text startScan useColumnsize) + 1
  else 0
termination_by text.length - startScan
decreasing_by
  have later := @lt_nextScan text startScan useColumnsize ‹_›
  omega

def countPartitions (text : Text) (useColumnsize : Nat) : Nat :=
  if text.length ≤ useColumnsize then 1 else countFrom text useColumnsize 0

def segmentsFrom (text : Text) (useColumnsize startScan : Nat) : List Text :=
  if startScan < text.length then
    let start := skipBlanks text startScan
    let next := nextScan text start useColumnsize
    (text.drop start).take (next - start) :: segmentsFrom text useColumnsize next
  else []
termination_by text.length - startScan
decreasing_by
  have first : startScan ≤ skipBlanks text startScan := le_scan
  have last : skipBlanks text startScan ≤ text.length := scan_le (by omega)
  rcases Nat.lt_or_eq_of_le last with before | past
  · have later := @lt_nextScan text _ useColumnsize before
    omega
  · rw [nextScan_end text useColumnsize past]
    omega

structure PrintControl where
  columnWidths : Option (Nat → Nat)
  fieldSize : Nat

def PrintControl.useColumnsize (pc : PrintControl) (column : Nat) : Nat :=
  match pc.columnWidths with
  | some columnWidths => columnWidths column
  | none => pc.fieldSize

/-- `HL[nextH++].Add_Header`, and empty strings for the lines behind the last segment. -/
def addHeaders : List (List Text) → List Text → Option (List (List Text))
  | lines, [] => some (lines.map (· ++ [[]]))
  | [], _ :: _ => none
  | line :: lines, header :: headers => (addHeaders lines headers).map ((line ++ [header]) :: ·)

variable (pc : PrintControl)

def maxBreaksFrom (maxBreaks column : Nat) : List Text → Nat
  | [] => maxBreaks
  | header :: headers =>
    maxBreaksFrom
      (if header = [] then maxBreaks
      else max maxBreaks (countPartitions header (pc.useColumnsize column)))
      (column + 1) headers

def fillLines (column : Nat) (lines : List (List Text)) : List Text → Option (List (List Text))
  | [] => some lines
  | header :: headers => do
      let lines ← addHeaders lines (segmentsFrom header (pc.useColumnsize column) 0)
      fillLines (column + 1) lines headers

def printHeader (headers : List Text) : Option (List (List Text)) :=
  match headers.getLast? with
  | none => none
  | some last => do
      let maxBreaks := maxBreaksFrom pc 0 0 headers.dropLast
      if maxBreaks = 1 then some [headers]
      else
        let lines ← fillLines pc 0 (List.replicate maxBreaks []) headers.dropLast
        addHeaders lines [last]

end OpenSpeedShop.HeaderLines
