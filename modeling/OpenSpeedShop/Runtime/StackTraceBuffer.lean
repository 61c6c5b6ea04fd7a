import OpenSpeedShop.Library.Fallible
import OpenSpeedShop.Library.MarkedBlocks
import OpenSpeedShop.Library.WindowCompare
import OpenSpeedShop.Runtime.PCData

/-!
`OpenSS_UpdateStackTraceBuffer`: stack traces stored back to back in the caller's buffers, whose lengths
are behind pointers. A read or write outside of an object gives no result.
-/

namespace OpenSpeedShop

open Option (bind_eq_bind bind_some)

namespace StackTraceBuffer

structure Buffer (bufsize : Nat) where
  databuflen : Nat
  countbuflen : Nat
  addrBegin : UInt64
  addrEnd : UInt64
  countbuf : Vector UInt64 bufsize
  databuf : Vector UInt64 bufsize
deriving DecidableEq

variable {bufsize : Nat}

/-- `*(pointer + offset)` where the pointer is to one `int` of the caller. -/
def deref (length offset : Nat) : Option Nat := if offset = 0 then some length else none

def matchesAt (buffer : Buffer bufsize) (framebuf : List UInt64) (i : Nat) : Option Bool := do
  let count ← buffer.countbuf[i]?
  if count = 0 ∨ count = 255 then return false
  else WindowCompare.compareAt buffer.databuf i framebuf

def cmpSamplebuffer (buffer : Buffer bufsize) (framebuf : List UInt64) : Option (Option Nat) :=
  Fallible.findFirst (matchesAt buffer framebuf) (List.range buffer.countbuflen)

/-- The body of the loop of `update_samplebuffer`. The source writes `*databuflen++`, so
that the pointers are moved and the lengths are kept. -/
def addFrame (i : Nat) (frame : UInt64) (buffer : Buffer bufsize) : Option (Buffer bufsize) := do
  let databuflen ← deref buffer.databuflen i
  let databuf ← store? buffer.databuf databuflen frame
  let countbuflen ← deref buffer.countbuflen i
  let countbuf ← store? buffer.countbuf countbuflen (if i > 0 then 0 else 1)
  return { buffer with
    databuf := databuf
    countbuf := countbuf
    addrBegin := if frame < buffer.addrBegin then frame else buffer.addrBegin
    addrEnd := if frame > buffer.addrEnd then frame else buffer.addrEnd }

def updateSamplebuffer : (i : Nat) → (framebuf : List UInt64) → Buffer bufsize → Option (Buffer bufsize)
  | _, [], buffer => some buffer
  | i, frame :: rest, buffer => (addFrame i frame buffer).bind (updateSamplebuffer (i + 1) rest)

def existingStack (buffer : Buffer bufsize) (framebuf : List UInt64) : Option (Option Nat) := do
  let found ← cmpSamplebuffer buffer framebuf
  match found with
  | some stackindex => do
      let count ← buffer.countbuf[stackindex]?
      return if count < 255 then some stackindex else none
  | none => return none

/-- The call, and whether it had to send the samples. `send_samples` is a function of the
collector that may change the buffers, but not their size. -/
def updateStackTraceBuffer (sendSamples : Buffer bufsize → Buffer bufsize)
    (framebuf : List UInt64) (buffer : Buffer bufsize) : Option (Buffer bufsize × Bool) := do
  match ← existingStack buffer framebuf with
  | some stackindex => do
      let count ← buffer.countbuf[stackindex]?
      let countbuf ← store? buffer.countbuf stackindex (count + 1)
      return ({ buffer with countbuf := countbuf }, false)
  | none =>
    let buflen := buffer.databuflen + framebuf.length
    if buflen ≤ bufsize then do
      let buffer ← updateSamplebuffer 0 framebuf buffer
      return (buffer, false)
    else do
      let buffer ← updateSamplebuffer 0 framebuf (sendSamples buffer)
      return (buffer, true)

end StackTraceBuffer

/-!
What an update of the stack trace buffer is to do, and when it does so: the lengths are
never increased, and a trace is also found at the beginning of a longer one.
-/

namespace StackTraceBuffer

open Fallible (FirstFound firstFound_findFirst)
open MarkedBlocks (Block flat flat_append flat_cons place_of_mark getElem?_flat_head)
open WindowCompare (compareAt)

variable {bufsize : Nat}

abbrev Stack := Block UInt64 UInt64

def frames (buffer : Buffer bufsize) : List UInt64 := buffer.databuf.toList.take buffer.databuflen

def counts (buffer : Buffer bufsize) : List UInt64 :=
  buffer.countbuf.toList.take buffer.countbuflen

structure Lies (buffer : Buffer bufsize) (stored : List Stack) : Prop where
  databuf : frames buffer = (flat 0 stored).map Prod.fst
  countbuf : counts buffer = (flat 0 stored).map Prod.snd
  databuflen : buffer.databuflen = (flat 0 stored).length
  countbuflen : buffer.countbuflen = (flat 0 stored).length
  fits : buffer.databuflen ≤ bufsize
  counted : ∀ stack ∈ stored, 0 < stack.mark ∧ stack.mark ≤ 255

def newCounts : List UInt64 → List UInt64
  | [] => []
  | _ :: rest => 1 :: rest.map fun _ => 0

def Meets (stored : List Stack) (trace : List UInt64) (buffer : Buffer bufsize)
    (outcome : Option (Buffer bufsize × Bool)) : Prop :=
  if ∃ stack ∈ stored, stack.items = trace then
    ∃ before stack after countbuf, stored = before ++ stack :: after ∧ stack.items = trace ∧
      store? buffer.countbuf (flat 0 before).length (stack.mark + 1) = some countbuf ∧
      outcome = some ({ buffer with countbuf := countbuf }, false)
  else if buffer.databuflen + trace.length ≤ bufsize then
    ∃ next, outcome = some (next, false) ∧ frames next = frames buffer ++ trace ∧
      counts next = counts buffer ++ newCounts trace ∧
      next.databuflen = buffer.databuflen + trace.length ∧
      next.countbuflen = buffer.countbuflen + trace.length
  else ∃ next, outcome = some (next, true) ∧ frames next = frames buffer ∧
    counts next = counts buffer ∧ next.databuflen = buffer.databuflen ∧
    next.countbuflen = buffer.countbuflen

def Differs (buffer : Buffer bufsize) (before : List Stack) (trace : List UInt64) : Prop :=
  ¬ trace <+: buffer.databuf.toList.drop (flat 0 before).length ∧
    ¬ buffer.databuf.toList.drop (flat 0 before).length <+: trace

/-- The trace is a stored one below the count limit, and the search passes all of the
stacks before it. -/
def FoundFirst (stored : List Stack) (trace : List UInt64) (buffer : Buffer bufsize) : Prop :=
  ∃ before stack after, stored = before ++ stack :: after ∧ stack.items = trace ∧
    stack.mark < 255 ∧ ∀ earlier other later, before = earlier ++ other :: later →
      other.mark < 255 → Differs buffer earlier trace

section

variable {buffer : Buffer bufsize} {stored : List Stack} {trace : List UInt64}

variable {before after : List Stack} {stack : Stack}

section

variable (lies : Lies buffer stored)
include lies

theorem Lies.countbuf_top (split : stored = before ++ stack :: after) :
    (flat 0 before).length < buffer.countbuflen ∧
      buffer.countbuf[(flat 0 before).length]? = some stack.mark := by
  have inside : (flat 0 before).length < buffer.countbuflen := by
    rw [lies.countbuflen, split]
    exact MarkedBlocks.length_flat_lt 0 before after stack
  have atTop : (counts buffer)[(flat 0 before).length]? = some stack.mark := by
    rw [lies.countbuf, split, List.getElem?_map, getElem?_flat_head]
    rfl
  rw [counts, List.getElem?_take_of_lt inside, Vector.getElem?_toList] at atTop
  exact ⟨inside, atTop⟩

theorem Lies.top_lt (split : stored = before ++ stack :: after) : (flat 0 before).length < bufsize := by
  have inside := (lies.countbuf_top split).1
  have lengths := lies.databuflen.trans lies.countbuflen.symm
  have fits := lies.fits
  omega

theorem Lies.mark_lt (member : stack ∈ stored) (apart : stack.mark ≠ 255) : stack.mark < 255 :=
  lt_of_le_of_ne (lies.counted stack member).2 apart

theorem Lies.matchesAt_top (split : stored = before ++ stack :: after) (below : stack.mark < 255) :
    matchesAt buffer trace (flat 0 before).length = compareAt buffer.databuf (flat 0 before).length trace := by
  have positive := (lies.counted stack (by rw [split]; simp)).1
  rw [matchesAt, (lies.countbuf_top split).2, bind_eq_bind, bind_some, if_neg]
  rintro (zero | limit)
  · rw [zero] at positive
    exact lt_irrefl _ positive
  · rw [limit] at below
    exact lt_irrefl _ below

theorem Lies.top_of_matchesAt {i : Nat} (used : i < buffer.countbuflen)
    (compared : matchesAt buffer trace i ≠ some false) :
    ∃ before stack after, stored = before ++ stack :: after ∧ i = (flat 0 before).length ∧
      stack.mark < 255 := by
  have inside : i < (flat (0 : UInt64) stored).length := lies.countbuflen ▸ used
  have held : (flat 0 stored)[i]? = some ((flat 0 stored)[i].1, (flat 0 stored)[i].2) :=
    List.getElem?_eq_getElem inside
  have count : buffer.countbuf[i]? = some (flat 0 stored)[i].2 := by
    have atPlace : (counts buffer)[i]? = some (flat 0 stored)[i].2 := by
      rw [lies.countbuf, List.getElem?_map, held]
      rfl
    rwa [counts, List.getElem?_take_of_lt used, Vector.getElem?_toList] at atPlace
  by_cases passed : (flat 0 stored)[i].2 = 0 ∨ (flat 0 stored)[i].2 = 255
  · refine absurd ?_ compared
    rw [matchesAt, count, bind_eq_bind, bind_some, if_pos passed]
    rfl
  · rw [not_or] at passed
    obtain ⟨before, stack, after, split, place, mark⟩ := place_of_mark held passed.1
    refine ⟨before, stack, after, split, place, lies.mark_lt ?_ (mark ▸ passed.2)⟩
    rw [split]
    simp

end

inductive Searched (buffer : Buffer bufsize) (stored : List Stack) (trace : List UInt64) :
    Option (Option Nat) → Prop
  | stuck (place : Nat) (inside : place < buffer.countbuflen)
      (fails : matchesAt buffer trace place = none)
      (passed : ∀ i < place, matchesAt buffer trace i = some false) :
      Searched buffer stored trace none
  | missed (passed : ∀ i < buffer.countbuflen, matchesAt buffer trace i = some false) :
      Searched buffer stored trace (some none)
  | found (before after : List Stack) (stack : Stack) (split : stored = before ++ stack :: after)
      (below : stack.mark < 255)
      (hit : matchesAt buffer trace (flat 0 before).length = some true)
      (passed : ∀ i < (flat 0 before).length, matchesAt buffer trace i = some false) :
      Searched buffer stored trace (some (some (flat 0 before).length))

theorem Lies.searched (lies : Lies buffer stored) (trace : List UInt64) :
    Searched buffer stored trace (existingStack buffer trace) := by
  have search := firstFound_findFirst (matchesAt buffer trace) buffer.countbuflen
  rw [existingStack, cmpSamplebuffer, bind_eq_bind]
  generalize Fallible.findFirst (matchesAt buffer trace) (List.range buffer.countbuflen) = result at search ⊢
  cases search with
  | stuck place inside fails before => exact .stuck place inside fails before
  | missed fails => exact .missed fails
  | found place inside hit passed =>
    obtain ⟨before, stack, after, split, rfl, below⟩ :=
      lies.top_of_matchesAt inside (by rw [hit]; simp)
    have atTop := (lies.countbuf_top split).2
    simp only [bind_some, bind_eq_bind, atTop, if_pos below]
    exact .found before after stack split below hit passed

theorem Lies.differs (lies : Lies buffer stored)
    (split : stored = before ++ stack :: after) (below : stack.mark < 255) :
    matchesAt buffer trace (flat 0 before).length = some false ↔ Differs buffer before trace := by
  rw [lies.matchesAt_top split below]
  exact WindowCompare.compareAt_eq_false

theorem Lies.hit (lies : Lies buffer stored)
    (split : stored = before ++ stack :: after) (below : stack.mark < 255) :
    matchesAt buffer stack.items (flat 0 before).length = some true := by
  rw [lies.matchesAt_top split below, WindowCompare.compareAt_eq_true]
  have used : stack.items <+: (frames buffer).drop (flat 0 before).length := by
    rw [lies.databuf, split, flat_append, flat_cons, List.map_append, List.map_append, Block.map_fst_marked]
    have length : (flat 0 before).length = ((flat 0 before).map Prod.fst).length := by simp
    rw [length, List.drop_left]
    exact List.prefix_append _ _
  rw [frames, List.drop_take] at used
  exact used.trans (List.take_prefix _ _)

end

theorem updateSamplebuffer_eq_some {trace : List UInt64} {buffer next : Buffer bufsize}
    (updated : updateSamplebuffer 0 trace buffer = some next) :
    trace = [] ∧ next = buffer ∨ ∃ frame, ∃ room : buffer.countbuflen < bufsize,
      trace = [frame] ∧ buffer.databuflen < bufsize ∧
      next.countbuf = buffer.countbuf.set buffer.countbuflen 1 ∧
      next.databuflen = buffer.databuflen ∧ next.countbuflen = buffer.countbuflen := by
  cases trace with
  | nil =>
    exact .inl ⟨rfl, (Option.some.inj updated).symm⟩
  | cons frame rest =>
    right
    rw [updateSamplebuffer, Option.bind_eq_some_iff] at updated
    obtain ⟨first, added, others⟩ := updated
    have single : rest = [] := by
      cases rest with
      | nil => rfl
      | cons second rest =>
        rw [updateSamplebuffer, addFrame] at others
        cases others
    subst single
    obtain rfl := Option.some.inj others
    by_cases roomData : buffer.databuflen < bufsize
    · by_cases room : buffer.countbuflen < bufsize
      · have result : addFrame 0 frame buffer = some { buffer with
            databuf := buffer.databuf.set buffer.databuflen frame
            countbuf := buffer.countbuf.set buffer.countbuflen 1
            addrBegin := if frame < buffer.addrBegin then frame else buffer.addrBegin
            addrEnd := if frame > buffer.addrEnd then frame else buffer.addrEnd } := by
          simp [addFrame, deref, store?, roomData, room]
        obtain rfl := Option.some.inj (result.symm.trans added)
        exact ⟨frame, room, rfl, roomData, rfl, rfl, rfl⟩
      · simp [addFrame, deref, store?, room] at added
    · simp [addFrame, deref, store?, roomData] at added

section

variable {buffer : Buffer bufsize} {stored : List Stack} {trace : List UInt64}
  {sendSamples : Buffer bufsize → Buffer bufsize}

variable {before after : List Stack}

theorem outcome_found (lies : Lies buffer stored) {stack : Stack} (split : stored = before ++ stack :: after)
    (found : existingStack buffer trace = some (some (flat 0 before).length)) :
    updateStackTraceBuffer sendSamples trace buffer = some ({ buffer with
      countbuf := buffer.countbuf.set (flat 0 before).length (stack.mark + 1)
        (lies.top_lt split) }, false) := by
  have atTop := (lies.countbuf_top split).2
  simp only [updateStackTraceBuffer, found, atTop, store?_eq_some (lies.top_lt split),
    bind_eq_bind, bind_some]
  rfl

theorem outcome_missed {next : Buffer bufsize} {sent : Bool}
    (missed : existingStack buffer trace = some none) :
    updateStackTraceBuffer sendSamples trace buffer = some (next, sent) ↔
      if buffer.databuflen + trace.length ≤ bufsize then
        updateSamplebuffer 0 trace buffer = some next ∧ sent = false
      else updateSamplebuffer 0 trace (sendSamples buffer) = some next ∧ sent = true := by
  simp only [updateStackTraceBuffer, missed, bind_eq_bind, bind_some]
  split
  · cases updateSamplebuffer 0 trace buffer <;> simp [eq_comm]
  · cases updateSamplebuffer 0 trace (sendSamples buffer) <;> simp [eq_comm]

theorem Lies.outcome_cases (lies : Lies buffer stored) {next : Buffer bufsize} {sent : Bool}
    (outcome : updateStackTraceBuffer sendSamples trace buffer = some (next, sent)) :
    ((∀ i < buffer.countbuflen, matchesAt buffer trace i = some false) ∧
      if buffer.databuflen + trace.length ≤ bufsize then
        updateSamplebuffer 0 trace buffer = some next ∧ sent = false
      else updateSamplebuffer 0 trace (sendSamples buffer) = some next ∧ sent = true) ∨
    ∃ before after stack, ∃ split : stored = before ++ stack :: after, stack.mark < 255 ∧
      (∀ i < (flat 0 before).length, matchesAt buffer trace i = some false) ∧ next = { buffer with
        countbuf := buffer.countbuf.set (flat 0 before).length (stack.mark + 1)
          (lies.top_lt split) } ∧ sent = false := by
  have search := lies.searched trace
  cases found : existingStack buffer trace with
  | none => simp [updateStackTraceBuffer, found] at outcome
  | some result =>
    rw [found] at search
    cases search with
    | missed passed => exact .inl ⟨passed, (outcome_missed found).mp outcome⟩
    | found before after stack split below hit passed =>
      rw [outcome_found lies split found, Option.some.injEq, Prod.mk.injEq] at outcome
      exact .inr ⟨before, after, stack, split, below, passed, outcome.1.symm, outcome.2.symm⟩

theorem add_one_ne (count : UInt64) : count + 1 ≠ count := by
  intro same
  have number := congrArg UInt64.toNat same
  have bound := count.toNat_lt
  rw [UInt64.toNat_add] at number
  simp only [UInt64.reduceToNat] at number
  omega

theorem Lies.place_of_increased (lies : Lies buffer stored)
    {stack : Stack} (split : stored = before ++ stack :: after) {place : Nat} {count : UInt64}
    {inside : place < bufsize} (same : buffer.countbuf.set place count inside =
      buffer.countbuf.set (flat 0 before).length (stack.mark + 1) (lies.top_lt split)) :
    place = (flat 0 before).length := by
  by_contra apart
  have atTop := congrArg (fun counts => counts[(flat 0 before).length]?) same
  simp only [Vector.getElem?_set_ne _ apart, Vector.getElem?_set_self (lies.top_lt split),
    (lies.countbuf_top split).2, Option.some.injEq] at atTop
  exact add_one_ne _ atTop.symm

theorem items_ne_nil (stack : Stack) : stack.items ≠ [] := List.cons_ne_nil _ _

theorem meets_of_not_stored (lies : Lies buffer stored) (missing : ¬ ∃ stack ∈ stored, stack.items = trace)
    (meets : Meets stored trace buffer (updateStackTraceBuffer sendSamples trace buffer)) :
    trace = [] ∧ ∃ next, updateStackTraceBuffer sendSamples trace buffer = some (next, false) ∧
      counts next = counts buffer := by
  rw [Meets, if_neg missing] at meets
  by_cases fits : buffer.databuflen + trace.length ≤ bufsize
  · rw [if_pos fits] at meets
    obtain ⟨next, outcome, _, sameCounts, longer, _⟩ := meets
    have empty : trace = [] := by
      rcases lies.outcome_cases outcome with ⟨_, updated⟩ | ⟨_, _, _, _, _, _, rfl, _⟩
      · rw [if_pos fits] at updated
        rcases updateSamplebuffer_eq_some updated.1 with
          ⟨empty, _⟩ | ⟨frame, _, rfl, _, _, kept, _⟩
        · exact empty
        · rw [kept, List.length_singleton] at longer
          omega
      · exact List.eq_nil_of_length_eq_zero (by simpa using longer)
    subst empty
    exact ⟨rfl, next, outcome, by rw [sameCounts, newCounts, List.append_nil]⟩
  · rw [if_neg fits] at meets
    obtain ⟨next, outcome, _, _, kept, _⟩ := meets
    exfalso
    have within := lies.fits
    rcases lies.outcome_cases outcome with ⟨_, updated⟩ | ⟨_, _, _, _, _, _, _, notSent⟩
    · rw [if_neg fits] at updated
      rcases updateSamplebuffer_eq_some updated.1 with
        ⟨rfl, _⟩ | ⟨frame, _, rfl, room, _, same, _⟩
      · exact fits within
      · rw [List.length_singleton] at fits
        omega
    · cases notSent

section

variable (lies : Lies buffer stored) {stack : Stack} (split : stored = before ++ stack :: after)
  (below : stack.mark < 255)
  (differs : ∀ earlier other later, before = earlier ++ other :: later → other.mark < 255 → Differs buffer earlier stack.items)
include lies split below differs

theorem place_of_foundFirst {place : Nat} (inside : place < buffer.countbuflen)
    (stops : matchesAt buffer stack.items place ≠ some false)
    (passed : ∀ i < place, matchesAt buffer stack.items i = some false) : place = (flat 0 before).length := by
  have hit := lies.hit split below
  rcases Nat.lt_trichotomy place (flat 0 before).length with less | same | more
  · exfalso
    obtain ⟨earlier, other, rest, otherSplit, rfl, otherBelow⟩ :=
      lies.top_of_matchesAt inside stops
    obtain ⟨later, between⟩ := MarkedBlocks.split_of_place_lt (otherSplit.symm.trans split) less
    exact stops ((lies.differs otherSplit otherBelow).mpr (differs earlier other later between otherBelow))
  · exact same
  · have missed := passed _ more
    rw [hit] at missed
    cases missed

theorem existingStack_of_foundFirst :
    existingStack buffer stack.items = some (some (flat 0 before).length) := by
  have hit := lies.hit split below
  have search := lies.searched stack.items
  cases found : existingStack buffer stack.items with
  | none =>
    rw [found] at search
    cases search with
    | stuck place inside fails passed =>
      have here := place_of_foundFirst lies split below differs inside (by rw [fails]; simp) passed
      rw [here, hit] at fails
      cases fails
  | some result =>
    rw [found] at search
    cases search with
    | missed passed =>
      have missed := passed _ (lies.countbuf_top split).1
      rw [hit] at missed
      cases missed
    | found before' after' stack' split' below' hit' passed =>
      rw [place_of_foundFirst lies split below differs (lies.countbuf_top split').1
        (by rw [hit']; simp) passed]

end

theorem meets_of_foundFirst (lies : Lies buffer stored) (found : FoundFirst stored trace buffer) :
    Meets stored trace buffer (updateStackTraceBuffer sendSamples trace buffer) := by
  obtain ⟨before, stack, after, split, rfl, below, differs⟩ := found
  have member : stack ∈ stored := by
    rw [split]
    simp
  rw [Meets, if_pos ⟨stack, member, rfl⟩,
    outcome_found lies split (existingStack_of_foundFirst lies split below differs)]
  exact ⟨before, stack, after, _, split, rfl, store?_eq_some (lies.top_lt split), rfl⟩

theorem existingStack_of_exhausted (lies : Lies buffer stored)
    (exhausted : ∀ stack ∈ stored, stack.mark = 255) (trace : List UInt64) :
    existingStack buffer trace = some none := by
  have never : ∀ i < buffer.countbuflen, matchesAt buffer trace i = some false := by
    intro i inside
    by_contra compared
    obtain ⟨before, stack, after, split, _, below⟩ := lies.top_of_matchesAt inside compared
    rw [exhausted stack (by rw [split]; simp)] at below
    exact lt_irrefl _ below
  have search := lies.searched trace
  cases found : existingStack buffer trace with
  | none =>
    rw [found] at search
    cases search with
    | stuck place inside fails passed =>
      rw [never place inside] at fails
      cases fails
  | some result =>
    rw [found] at search
    cases search with
    | missed passed => rfl
    | found before after stack split below hit passed =>
      rw [never _ (lies.countbuf_top split).1] at hit
      cases hit

theorem meets_of_exhausted (lies : Lies buffer stored) (exhausted : ∀ stack ∈ stored, stack.mark = 255) :
    Meets stored [] buffer (updateStackTraceBuffer sendSamples [] buffer) := by
  have missing : ¬ ∃ stack ∈ stored, stack.items = [] := by
    rintro ⟨stack, _, empty⟩
    exact items_ne_nil stack empty
  have fits : buffer.databuflen + ([] : List UInt64).length ≤ bufsize := lies.fits
  have outcome : updateStackTraceBuffer sendSamples [] buffer = some (buffer, false) := by
    rw [outcome_missed (existingStack_of_exhausted lies exhausted []), if_pos fits]
    exact ⟨rfl, rfl⟩
  rw [Meets, if_neg missing, if_pos fits]
  exact ⟨buffer, outcome, (List.append_nil _).symm, (List.append_nil _).symm, rfl, rfl⟩

/-- The call has the outcome that it is to have exactly when it finds the trace among the
stored ones, or when there is nothing to add. -/
theorem updateStackTraceBuffer_meets_iff (sendSamples : Buffer bufsize → Buffer bufsize)
    (lies : Lies buffer stored) (trace : List UInt64) :
    Meets stored trace buffer (updateStackTraceBuffer sendSamples trace buffer) ↔
      FoundFirst stored trace buffer ∨ trace = [] ∧ ∀ stack ∈ stored, stack.mark = 255 := by
  constructor
  · intro meets
    by_cases whole : ∃ stack ∈ stored, stack.items = trace
    · left
      rw [Meets, if_pos whole] at meets
      obtain ⟨before, stack, after, countbuf, split, items, stores, outcome⟩ := meets
      rw [store?_eq_some (lies.top_lt split), Option.some.injEq] at stores
      subst stores
      rcases lies.outcome_cases outcome with
        ⟨_, updated⟩ | ⟨before', after', stack', split', below, passed, increased, _⟩
      · exfalso
        split at updated
        · rcases updateSamplebuffer_eq_some updated.1 with
            ⟨empty, _⟩ | ⟨frame, room, _, _, counted, _, _⟩
          · exact items_ne_nil stack (items.trans empty)
          · have place := lies.place_of_increased split counted.symm
            have top := (lies.countbuf_top split).1
            omega
        · cases updated.2
      · rw [Buffer.mk.injEq] at increased
        have place := lies.place_of_increased split increased.2.2.2.2.1.symm
        obtain ⟨rfl, rfl⟩ := MarkedBlocks.split_eq_of_place (split'.symm.trans split) place
        refine ⟨before', stack', after, split, items, below, ?_⟩
        intro earlier other later between otherBelow
        have otherSplit : stored = earlier ++ other :: (later ++ stack' :: after) := by
          rw [split, between, List.append_assoc, List.cons_append]
        refine (lies.differs otherSplit otherBelow).mp (passed _ ?_)
        rw [between]
        exact MarkedBlocks.length_flat_lt 0 earlier later other
    · right
      obtain ⟨rfl, next, outcome, sameCounts⟩ := meets_of_not_stored lies whole meets
      refine ⟨rfl, fun stack member => ?_⟩
      by_contra apart
      obtain ⟨before, after, split⟩ := List.append_of_mem member
      have below := lies.mark_lt member apart
      rcases lies.outcome_cases outcome with
        ⟨passed, _⟩ | ⟨before', after', stack', split', _, _, rfl, _⟩
      · have missed := passed _ (lies.countbuf_top split).1
        rw [lies.matchesAt_top split below, compareAt] at missed
        cases missed
      · obtain ⟨inside, atTop⟩ := lies.countbuf_top split'
        have atPlace := congrArg (fun counts => counts[(flat 0 before').length]?) sameCounts
        simp only [counts, List.getElem?_take_of_lt inside, Vector.getElem?_toList,
          Vector.getElem?_set_self (lies.top_lt split'), atTop, Option.some.injEq] at atPlace
        exact add_one_ne _ atPlace
  · rintro (found | ⟨rfl, exhausted⟩)
    · exact meets_of_foundFirst lies found
    · exact meets_of_exhausted lies exhausted

def emptyBuffer : Buffer 4 := ⟨0, 0, ~~~0, 0, Vector.replicate 4 0, Vector.replicate 4 0⟩

def oneStack : Buffer 4 := ⟨2, 2, 16, 32, #v[1, 0, 0, 0], #v[16, 32, 0, 0]⟩

theorem updateStackTraceBuffer_meets_oneStack :
    Meets [⟨16, [32], 1⟩] [16, 32] oneStack
      (updateStackTraceBuffer (fun _ => emptyBuffer) [16, 32] oneStack) := by
  have lies : Lies oneStack [⟨16, [32], 1⟩] :=
    ⟨by decide, by decide, by decide, by decide, by decide, by decide⟩
  refine (updateStackTraceBuffer_meets_iff (fun _ => emptyBuffer) lies [16, 32]).mpr
    (.inl ⟨[], ⟨16, [32], 1⟩, [], rfl, rfl, by decide, ?_⟩)
  intro earlier other later nothing
  cases earlier <;> cases nothing

theorem length_not_increased : ¬ Meets [] [16] emptyBuffer
    (updateStackTraceBuffer (fun _ => emptyBuffer) [16] emptyBuffer) := by
  intro meets
  rw [Meets, if_neg (by simp), if_pos (by decide)] at meets
  obtain ⟨next, outcome, _, _, longer, _⟩ := meets
  have kept : (updateStackTraceBuffer (fun _ => emptyBuffer) [16] emptyBuffer).map
      (fun result => result.1.databuflen) = some 0 := by
    decide +kernel
  rw [outcome] at kept
  have zero : next.databuflen = 0 := Option.some.inj kept
  rw [zero] at longer
  cases longer

end

end StackTraceBuffer

end OpenSpeedShop
