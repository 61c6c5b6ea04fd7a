import OpenSpeedShop.Cli.CompareSets
import Mathlib.Algebra.GroupWithZero.Nat

/-! The threads of a group that a target list keeps. -/

namespace OpenSpeedShop.FilterThreads

open ClusterView (ParseRange ParseTarget Thread withinRange withinHostRange)
open CompareSets (ThreadGroup insert foldl_insert)

def toPid (num : Int) : Int := num.bmod (2 ^ 32)

def withinPidRange (value : Int) : ParseRange Int → Bool
  | .point first => value = toPid first
  | .range first last => toPid first ≤ value ∧ value ≤ toPid last

def includeThread (canonicalName : String → String) (t : Thread) (pt : ParseTarget) : Bool :=
  let includeThread := true
  let includeThread :=
    if includeThread && !pt.rankList.isEmpty && t.mpiRank.isSome then
      pt.rankList.any (withinRange (t.mpiRank.getD (-1)))
    else includeThread
  let includeThread :=
    if includeThread && !pt.threadList.isEmpty && t.threadId.isSome then
      pt.threadList.any (withinRange (t.threadId.getD (-1)))
    else includeThread
  let includeThread :=
    if includeThread && !pt.pidList.isEmpty then pt.pidList.any (withinPidRange t.processId)
    else includeThread
  if includeThread && !pt.hostList.isEmpty then
    pt.hostList.any (withinHostRange canonicalName t.host)
  else includeThread

/-- The first thread of the group is taken to lock the database: nothing is left where there is
none and the end of the group is dereferenced. -/
def filterThreadGroup (canonicalName : String → String) (targets : List ParseTarget)
    (tgrp : List Thread) : Option (List Thread) :=
  if targets = [] then some tgrp
  else if tgrp = [] then none
  else some (tgrp.foldl (fun rgrp t =>
    if targets.any (includeThread canonicalName t) then insert rgrp t else rgrp) [])

def InRange (value : Int) : ParseRange Int → Prop
  | .point first => value = first
  | .range first last => first ≤ value ∧ value ≤ last

def HostInRange (canonicalName : String → String) (host : String) : ParseRange String → Prop
  | .point first => host = canonicalName first
  | .range first last => canonicalName first ≤ host ∧ host ≤ canonicalName last

def InList {Value : Type} (within : ParseRange Value → Prop) (items : List (ParseRange Value)) : Prop :=
  items ≠ [] → ∃ item ∈ items, within item

/-- The lists of hosts, threads and ranks. An identifier that a thread does not have is not
looked for. -/
structure MatchesOthers (canonicalName : String → String) (t : Thread) (target : ParseTarget) : Prop where
  hosts : InList (HostInRange canonicalName t.host) target.hostList
  threads : ∀ id ∈ t.threadId, InList (InRange id) target.threadList
  ranks : ∀ rank ∈ t.mpiRank, InList (InRange rank) target.rankList

def MatchesPid (t : Thread) (target : ParseTarget) : Prop := InList (InRange t.processId) target.pidList

def pidBounds : ParseRange Int → ParseRange Int
  | .point first => .point (toPid first)
  | .range first last => .range (toPid first) (toPid last)

def MatchesLowPid (t : Thread) (target : ParseTarget) : Prop :=
  InList (fun item => InRange t.processId (pidBounds item)) target.pidList

variable {canonicalName : String → String} {targets : List ParseTarget}

theorem withinRange_iff {value : Int} {item : ParseRange Int} :
    withinRange value item = true ↔ InRange value item := by
  cases item with
  | point first => exact decide_eq_true_iff
  | range first last => exact decide_eq_true_iff

theorem withinPidRange_iff {value : Int} {item : ParseRange Int} :
    withinPidRange value item = true ↔ InRange value (pidBounds item) := by
  cases item with
  | point first => exact decide_eq_true_iff
  | range first last => exact decide_eq_true_iff

theorem withinHostRange_iff {host : String} {item : ParseRange String} :
    withinHostRange canonicalName host item = true ↔ HostInRange canonicalName host item := by
  cases item with
  | point first => exact decide_eq_true_iff
  | range first last => exact decide_eq_true_iff

theorem test_iff {Value : Type} {before looks : Bool} {items : List (ParseRange Value)}
    {test : ParseRange Value → Bool} {within : ParseRange Value → Prop}
    (same : ∀ item, test item = true ↔ within item) :
    (if before && !items.isEmpty && looks then items.any test else before) = true ↔
      before = true ∧ (looks = true → InList within items) := by
  have found : items.any test = true ↔ ∃ item ∈ items, within item := by
    simp only [List.any_eq_true, same]
  cases before with
  | false => simp
  | true =>
    cases looks with
    | false => simp
    | true =>
      cases items with
      | nil => simp [InList]
      | cons first rest => simpa [InList] using found

theorem includeThread_iff {t : Thread} {target : ParseTarget} : includeThread canonicalName t target = true ↔
      MatchesOthers canonicalName t target ∧ MatchesLowPid t target := by
  have rank (before : Bool) := @test_iff _ before t.mpiRank.isSome target.rankList _ _
    fun item => @withinRange_iff (t.mpiRank.getD (-1)) item
  have thread (before : Bool) := @test_iff _ before t.threadId.isSome target.threadList _ _
    fun item => @withinRange_iff (t.threadId.getD (-1)) item
  have pid (before : Bool) := @test_iff _ before true target.pidList _ _
    fun item => @withinPidRange_iff t.processId item
  have host (before : Bool) := @test_iff _ before true target.hostList _ _
    fun item => @withinHostRange_iff canonicalName t.host item
  simp only [Bool.and_true] at pid host
  have given : ∀ (value : Option Int) (items : List (ParseRange Int)),
      (value.isSome = true → InList (InRange (value.getD (-1))) items) ↔
        ∀ id ∈ value, InList (InRange id) items := by
    intro value items
    cases value <;> simp
  simp only [includeThread, host, pid, thread, rank, given, forall_const, true_and]
  constructor
  · rintro ⟨⟨⟨ranks, threads⟩, pids⟩, hosts⟩
    exact ⟨⟨hosts, threads, ranks⟩, pids⟩
  · rintro ⟨⟨hosts, threads, ranks⟩, pids⟩
    exact ⟨⟨⟨ranks, threads⟩, pids⟩, hosts⟩

theorem filterThreadGroup_eq (nonempty : targets ≠ []) (group : ThreadGroup)
    (some_ : group.threads ≠ []) : filterThreadGroup canonicalName targets group.threads =
      some (group.threads.filter fun t => targets.any (includeThread canonicalName t)) := by
  have loop := foldl_insert (fun t => targets.any (includeThread canonicalName t)) group.threads []
    group.distinct
  rw [filterThreadGroup, if_neg nonempty, if_neg some_, loop, List.nil_append]

/-- The threads kept are those that a target matches, exactly when the group has a thread and the high
bits of the process numbers in the targets make no difference. -/
theorem filterThreadGroup_exact_iff (canonicalName : String → String) {targets : List ParseTarget}
    (nonempty : targets ≠ []) (group : ThreadGroup) :
    (∃ kept, filterThreadGroup canonicalName targets group.threads = some kept ∧
      (kept.map Thread.entry).Nodup ∧
      ∀ t, t ∈ kept ↔ t ∈ group.threads ∧
        ∃ target ∈ targets, MatchesOthers canonicalName t target ∧ MatchesPid t target) ↔
      group.threads ≠ [] ∧ ∀ t ∈ group.threads,
        (∃ target ∈ targets, MatchesOthers canonicalName t target ∧ MatchesLowPid t target) ↔
          ∃ target ∈ targets, MatchesOthers canonicalName t target ∧ MatchesPid t target := by
  have chosen : ∀ t, targets.any (includeThread canonicalName t) = true ↔
      ∃ target ∈ targets, MatchesOthers canonicalName t target ∧ MatchesLowPid t target := by
    intro t
    simp only [List.any_eq_true, includeThread_iff]
  constructor
  · rintro ⟨kept, ran, _, exact⟩
    have some_ : group.threads ≠ [] := by
      intro none
      rw [none, filterThreadGroup, if_neg nonempty, if_pos rfl] at ran
      cases ran
    rw [filterThreadGroup_eq nonempty group some_, Option.some.injEq] at ran
    refine ⟨some_, fun t member => ?_⟩
    have own := exact t
    rw [← ran, List.mem_filter, chosen, and_iff_right member, and_iff_right member] at own
    exact own
  · rintro ⟨some_, same⟩
    refine ⟨_, filterThreadGroup_eq nonempty group some_, ?_, fun t => ?_⟩
    · exact group.distinct.sublist (List.filter_sublist.map _)
    · rw [List.mem_filter, chosen]
      exact and_congr_right fun member => same t member

theorem matchesLowPid_iff {t : Thread} {target : ParseTarget}
    (fits : ∀ item ∈ target.pidList, pidBounds item = item) :
    MatchesLowPid t target ↔ MatchesPid t target := by
  refine forall_congr' fun _ => exists_congr fun item => and_congr_right fun member => ?_
  exact iff_of_eq (congrArg (InRange t.processId) (fits item member))

def twoThreads : ThreadGroup where
  threads := [⟨1, "a", 7, none, none, some 0⟩, ⟨2, "a", 7, some 5, none, some 1⟩]
  distinct := by simp

/-- `-p 7 -t 4:6 -r 1:3` -/
def rangesOfThread : ParseTarget := ⟨[], [], [.point 7], [.range 4 6], [.range 1 3]⟩

theorem filterThreadGroup_twoThreads :
    ∃ kept, filterThreadGroup id [rangesOfThread] twoThreads.threads = some kept ∧
      (kept.map Thread.entry).Nodup ∧
      ∀ t, t ∈ kept ↔ t ∈ twoThreads.threads ∧
        ∃ target ∈ [rangesOfThread], MatchesOthers id t target ∧ MatchesPid t target := by
  refine (filterThreadGroup_exact_iff id (List.cons_ne_nil _ _) twoThreads).mpr ⟨by decide, ?_⟩
  intro t _
  have fits : ∀ item ∈ rangesOfThread.pidList, pidBounds item = item := by
    intro item member
    rw [List.mem_singleton.mp member]
    rfl
  simp only [List.mem_singleton, exists_eq_left, matchesLowPid_iff fits]

theorem filterThreadGroup_fails :
    (¬ ∃ kept, filterThreadGroup id [rangesOfThread] [] = some kept) ∧
      ¬ MatchesPid ⟨1, "a", 7, none, none, none⟩ ⟨[], [], [.point 4294967303], [], []⟩ ∧
      filterThreadGroup id [⟨[], [], [.point 4294967303], [], []⟩] [⟨1, "a", 7, none, none, none⟩] =
        some [⟨1, "a", 7, none, none, none⟩] := by
  refine ⟨?_, ?_, rfl⟩
  · rintro ⟨kept, ran⟩
    cases ran
  · simp [MatchesPid, InList, InRange]

end OpenSpeedShop.FilterThreads
