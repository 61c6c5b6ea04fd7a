import OpenSpeedShop.Cli.ClusterViewCore

/-! The threads that the sets of a comparison select from the threads of an experiment. -/

namespace OpenSpeedShop.CompareSets

open ClusterView (Thread)

/-- What a compare set selects by, with the defaults of its constructor. A `pthread_t` is
unsigned. -/
structure SelectionTarget where
  hostId : String := ""
  pidId : Int := 0
  threadId : BitVec 64 := 0
  rankId : Int := -1
deriving DecidableEq

def pthreadId (t : Thread) : Option (BitVec 64) := t.threadId.map (BitVec.ofInt 64)

def includeThread (S : SelectionTarget) (t : Thread) : Option Bool :=
  if S.rankId ≥ 0 then some (t.mpiRank = some S.rankId)
  else if S.threadId ≥ 0 then some (pthreadId t = some S.threadId)
  else if S.pidId ≥ 0 then some (t.processId = S.pidId)
  else if S.hostId ≠ "" then some (t.host = S.hostId)
  else none

def insert (rgrp : List Thread) (t : Thread) : List Thread :=
  if rgrp.any fun other => other.entry = t.entry then rgrp else rgrp ++ [t]

def selectThreadGroup (S : SelectionTarget) (rgrp : List Thread) : (baseGrp : List Thread) → List Thread
  | [] => rgrp
  | t :: rest =>
    match includeThread S t with
    | none => rgrp
    | some includes => selectThreadGroup S (if includes then insert rgrp t else rgrp) rest

structure ThreadGroup where
  threads : List Thread
  distinct : (threads.map Thread.entry).Nodup

inductive Criterion
  | rank (rankId : Nat)
  | thread (threadId : BitVec 64)
  | process (pidId : Int)
  | host (hostId : String)
  | none
deriving DecidableEq

namespace Criterion

def target : Criterion → SelectionTarget
  | rank rankId => { rankId := rankId }
  | thread threadId => { threadId := threadId }
  | process pidId => { pidId := pidId }
  | host hostId => { hostId := hostId }
  | none => {}

def Satisfies : Criterion → Thread → Prop
  | rank rankId, t => t.mpiRank = some (rankId : Int)
  | thread threadId, t => pthreadId t = some threadId
  | process pidId, t => t.processId = pidId
  | host hostId, t => t.host = hostId
  | none, _ => True

instance : (criterion : Criterion) → (t : Thread) → Decidable (criterion.Satisfies t)
  | rank rankId, t => inferInstanceAs (Decidable (t.mpiRank = some (rankId : Int)))
  | thread threadId, t => inferInstanceAs (Decidable (pthreadId t = some threadId))
  | process pidId, t => inferInstanceAs (Decidable (t.processId = pidId))
  | host hostId, t => inferInstanceAs (Decidable (t.host = hostId))
  | none, _ => inferInstanceAs (Decidable True)

def Recognised : Criterion → Bool
  | rank _ => true
  | thread _ => true
  | process _ => false
  | host _ => false
  | none => false

end Criterion

def selections (group : ThreadGroup) (sets : List Criterion) : List (List Thread) :=
  sets.map fun criterion => selectThreadGroup criterion.target [] group.threads

/-! A set with a rank selects by it, and every other one by an identifier of threads. -/

theorem insert_of_new {rgrp rest : List Thread} {t : Thread}
    (distinct : ((rgrp ++ t :: rest).map Thread.entry).Nodup) : insert rgrp t = rgrp ++ [t] := by
  refine if_neg fun found => ?_
  obtain ⟨other, member, same⟩ := List.any_eq_true.mp found
  rw [List.map_append, List.map_cons, List.nodup_middle, List.nodup_cons] at distinct
  refine distinct.1 (List.mem_append_left _ (List.mem_map.mpr ⟨other, member, ?_⟩))
  exact of_decide_eq_true same

theorem foldl_insert (chosen : Thread → Bool) (baseGrp : List Thread) :
    ∀ rgrp, ((rgrp ++ baseGrp).map Thread.entry).Nodup →
      baseGrp.foldl (fun rgrp t => if chosen t then insert rgrp t else rgrp) rgrp =
        rgrp ++ baseGrp.filter chosen := by
  induction baseGrp with
  | nil => exact fun rgrp _ => (List.append_nil rgrp).symm
  | cons t rest ih =>
    intro rgrp distinct
    rw [List.foldl_cons]
    cases takes : chosen t with
    | true =>
      rw [if_pos rfl, insert_of_new distinct, ih _ (by simpa using distinct),
        List.filter_cons_of_pos takes, List.append_assoc, List.singleton_append]
    | false =>
      have fewer : ((rgrp ++ rest).map Thread.entry).Nodup :=
        distinct.sublist (((List.sublist_cons_self t rest).append_left rgrp).map _)
      rw [if_neg (by decide), ih rgrp fewer, List.filter_cons_of_neg (by simp [takes])]

theorem selectThreadGroup_eq {S : SelectionTarget} {chosen : Thread → Bool}
    (each : ∀ t, includeThread S t = some (chosen t)) (baseGrp : List Thread) :
    ∀ rgrp, selectThreadGroup S rgrp baseGrp =
      baseGrp.foldl (fun rgrp t => if chosen t then insert rgrp t else rgrp) rgrp := by
  induction baseGrp with
  | nil => exact fun _ => rfl
  | cons t rest ih =>
    intro rgrp
    simp only [selectThreadGroup, each t]
    exact ih _

def taken (criterion : Criterion) (t : Thread) : Bool :=
  if criterion.Recognised then criterion.Satisfies t else pthreadId t = some 0

theorem includeThread_target (criterion : Criterion) (t : Thread) :
    includeThread criterion.target t = some (taken criterion t) := by
  have unsigned : ∀ threadId : BitVec 64, threadId ≥ 0 := fun threadId => Nat.zero_le threadId.toNat
  have ranked : ¬ (-1 : Int) ≥ 0 := by decide
  cases criterion with
  | rank rankId => exact if_pos (Int.natCast_nonneg rankId)
  | thread threadId => exact (if_neg ranked).trans (if_pos (unsigned threadId))
  | process => exact (if_neg ranked).trans (if_pos (unsigned 0))
  | host => exact (if_neg ranked).trans (if_pos (unsigned 0))
  | none => exact (if_neg ranked).trans (if_pos (unsigned 0))

theorem selectThreadGroup_target (group : ThreadGroup) (criterion : Criterion) :
    selectThreadGroup criterion.target [] group.threads = group.threads.filter (taken criterion) := by
  rw [selectThreadGroup_eq (includeThread_target criterion), foldl_insert _ _ [] group.distinct,
    List.nil_append]

theorem filter_eq_filter_iff {first second : Thread → Bool} {threads : List Thread} :
    threads.filter first = threads.filter second ↔ ∀ t ∈ threads, first t = second t := by
  constructor
  · intro same t member
    have both : t ∈ threads.filter first ↔ t ∈ threads.filter second := by rw [same]
    rw [List.mem_filter, List.mem_filter, and_iff_right member, and_iff_right member] at both
    exact Bool.eq_iff_iff.mpr both
  · exact fun same => List.filter_congr same

/-- Each set of a list selects the threads that satisfy its criterion exactly when each set that
has neither a rank nor a thread asks for the threads with the identifier zero. -/
theorem selections_exact_iff (group : ThreadGroup) (sets : List Criterion) :
    selections group sets = sets.map (fun criterion => group.threads.filter fun t => criterion.Satisfies t) ↔
      ∀ criterion ∈ sets, criterion.Recognised = true ∨
        ∀ t ∈ group.threads, pthreadId t = some 0 ↔ criterion.Satisfies t := by
  rw [selections, List.map_inj_left]
  refine forall₂_congr fun criterion _ => ?_
  rw [selectThreadGroup_target, filter_eq_filter_iff]
  cases known : criterion.Recognised with
  | true => simp [taken, known]
  | false => simp [taken, known]

def plainProcess : ThreadGroup where
  threads := [⟨1, "host", 7, none, none, none⟩]
  distinct := by simp

theorem plainProcess_lost :
    selections plainProcess [.process 7, .none] ≠ [.process 7, .none].map fun criterion : Criterion =>
      plainProcess.threads.filter fun t => criterion.Satisfies t := by
  rw [Ne, selections, List.map_inj_left]
  intro same
  have first := same (.process 7) (by simp)
  rw [selectThreadGroup_target] at first
  exact absurd first (by decide)

end OpenSpeedShop.CompareSets
