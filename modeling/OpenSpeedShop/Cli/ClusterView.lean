import OpenSpeedShop.Cli.ClusterViewCore

/-! Which threads the view of a cluster selects. -/

namespace OpenSpeedShop.ClusterView

open IntRanges (Within Covers)

variable {canonicalName : String → String} {merging : Merging}

theorem withinRange_parseRange (value : Int) (range : Int × Int) :
    withinRange value (parseRange range) = true ↔ range.1 ≤ value ∧ value ≤ range.2 := by
  unfold parseRange
  split
  next point =>
    simp only [withinRange, decide_eq_true_eq]
    omega
  next => simp [withinRange]

theorem any_withinRange (ranges : List (Int × Int)) (value : Int) :
    (ranges.map parseRange).any (withinRange value) = true ↔ Within ranges value := by
  simp [withinRange_parseRange, Within]

/-- A field of the current target: its ranges cover the values of the threads that it stands for,
which are all the same in a field that is not merged. -/
structure Field (merged : Bool) (ranges : List (Int × Int)) (values : List Int) (last : Int) : Prop where
  covers : Covers ranges values last
  fixed : merged = false → ∀ value ∈ values, value = last

theorem field_single (merged : Bool) (value : Int) : Field merged [(value, value)] [value] value where
  covers := IntRanges.covers_single value
  fixed _ _ within := List.mem_singleton.mp within

variable {ranges : List (Int × Int)}

theorem Field.append {values : List Int} {last : Int} (field : Field true ranges values last) (next : Int) :
    Field true (IntRanges.append ranges last next) (values ++ [next]) next where
  covers := field.covers.append next
  fixed merged := by simp at merged

theorem Field.same {merged : Bool} {values : List Int} {last next : Int}
    (field : Field merged ranges values last) (same : next = last) :
    Field merged ranges (values ++ [next]) last := by
  subst same
  refine ⟨field.covers.again, fun unmerged value within => ?_⟩
  rcases List.mem_append.mp within with old | new
  · exact field.fixed unmerged value old
  · exact List.mem_singleton.mp new

section

variable {members : List ThreadInfo} {field : ThreadInfo → Int} {ranges : List (Int × Int)}
  {last : Int} {merged : Bool} {wanted : Option Int}

section

variable (held : Field merged ranges (members.map field) last)
include held

theorem Field.choose (nonempty : members ≠ []) (within : ∀ value ∈ wanted, Within ranges value) :
    ∃ info ∈ members, ∀ value ∈ wanted, field info = value := by
  cases wanted with
  | none =>
    obtain ⟨info, member⟩ := List.exists_mem_of_ne_nil members nonempty
    exact ⟨info, member, by simp⟩
  | some value =>
    have found := (held.covers.within_iff value).mp (within value rfl)
    obtain ⟨info, member, equal⟩ := List.mem_map.mp found
    exact ⟨info, member, by simp [equal]⟩

theorem Field.all (unmerged : merged = false) (within : ∀ value ∈ wanted, Within ranges value)
    {info : ThreadInfo} (member : info ∈ members) : ∀ value ∈ wanted, field info = value := by
  intro value wants
  have found := (held.covers.within_iff value).mp (within value wants)
  rw [held.fixed unmerged value found]
  exact held.fixed unmerged _ (List.mem_map_of_mem member)

theorem Field.within {info : ThreadInfo} (member : info ∈ members) : Within ranges (field info) :=
  (held.covers.within_iff _).mpr (List.mem_map_of_mem member)

end

end

structure Merging.Single (merging : Merging) : Prop where
  ranks : merging.ranks = true → merging.threads = false ∧ merging.pids = false
  threads : merging.threads = true → merging.pids = false

theorem mergingOf_single (infos : List ThreadInfo) : (mergingOf infos).Single where
  ranks merged := by simp_all [mergingOf]
  threads merged := by simp_all [mergingOf]

structure Gathers (merging : Merging) (state : Compression) (members : List ThreadInfo)
    (previous : ThreadInfo) : Prop where
  nonempty : members ≠ []
  host : state.currentTRI.hostName = state.currentHost
  pid : state.endPid = previous.processId
  thread : state.endThread = previous.threadId
  rank : state.endRank = previous.rankId
  pids : Field merging.pids state.currentTRI.processId (members.map (·.processId)) state.endPid
  threads : Field merging.threads state.currentTRI.threadId (members.map (·.threadId)) state.endThread
  ranks : Field merging.ranks state.currentTRI.rankId (members.map (·.rankId)) state.endRank

theorem gathers_begin (done : List ThreadRangeInfo) (info : ThreadInfo) :
    Gathers merging (.begin done info) [info] info where
  nonempty := by simp
  host := rfl
  pid := rfl
  thread := rfl
  rank := rfl
  pids := field_single merging.pids info.processId
  threads := field_single merging.threads info.threadId
  ranks := field_single merging.ranks info.rankId

def Selects (canonicalName : String → String) (tri : ThreadRangeInfo) (thread : Thread) : Prop :=
  includeThread canonicalName thread (parseTarget [] tri) = true

theorem selects_iff {tri : ThreadRangeInfo} {thread : Thread} (pids : tri.processId ≠ [])
    (threads : tri.threadId ≠ []) (ranks : tri.rankId ≠ []) : Selects canonicalName tri thread ↔
      canonicalName tri.hostName = thread.host ∧ Within tri.processId thread.processId ∧
        (∀ id ∈ thread.threadId, Within tri.threadId id) ∧
          ∀ rank ∈ thread.mpiRank, Within tri.rankId rank := by
  have hosts : (withinHostRange canonicalName thread.host (.point tri.hostName)) = true ↔
      canonicalName tri.hostName = thread.host := by
    simp only [withinHostRange, decide_eq_true_eq]
    exact eq_comm
  have ids : (thread.threadId.isNone = true ∨ Within tri.threadId (thread.threadId.getD (-1))) ↔
      ∀ id ∈ thread.threadId, Within tri.threadId id := by
    cases thread.threadId <;> simp
  have numbers : (thread.mpiRank.isNone = true ∨ Within tri.rankId (thread.mpiRank.getD (-1))) ↔
      ∀ rank ∈ thread.mpiRank, Within tri.rankId rank := by
    cases thread.mpiRank <;> simp
  simp only [Selects, includeThread, parseTarget, List.isEmpty_map, List.isEmpty_eq_false_iff.mpr,
    ne_eq, pids, threads, ranks, not_false_eq_true, Bool.false_or, Bool.and_eq_true,
    Bool.or_eq_true, any_withinRange, ids, numbers, List.isEmpty_cons, List.any_cons, List.any_nil,
    Bool.or_false, hosts]
  tauto

variable {state : Compression} {previous : ThreadInfo} {members : List ThreadInfo}

theorem Gathers.selects_iff (gathers : Gathers merging state members previous)
    (single : merging.Single) (thread : Thread) : Selects canonicalName state.currentTRI thread ↔
      ∃ info ∈ members, Fits canonicalName state.currentHost info thread := by
  rw [ClusterView.selects_iff gathers.pids.covers.nonempty gathers.threads.covers.nonempty
    gathers.ranks.covers.nonempty, gathers.host]
  constructor
  · rintro ⟨host, pidWithin, idsWithin, ranksWithin⟩
    have pids : ∀ pid ∈ some thread.processId, Within state.currentTRI.processId pid := by
      simpa using pidWithin
    cases rankMerged : merging.ranks with
    | true =>
      have others := single.ranks rankMerged
      obtain ⟨info, member, rank⟩ := gathers.ranks.choose gathers.nonempty ranksWithin
      exact ⟨info, member, host, gathers.pids.all others.2 pids member _ rfl,
        gathers.threads.all others.1 idsWithin member, rank⟩
    | false =>
      cases threadMerged : merging.threads with
      | true =>
        obtain ⟨info, member, id⟩ := gathers.threads.choose gathers.nonempty idsWithin
        exact ⟨info, member, host,
          gathers.pids.all (single.threads threadMerged) pids member _ rfl, id,
          gathers.ranks.all rankMerged ranksWithin member⟩
      | false =>
        obtain ⟨info, member, pid⟩ := gathers.pids.choose gathers.nonempty pids
        exact ⟨info, member, host, pid _ rfl,
          gathers.threads.all threadMerged idsWithin member,
          gathers.ranks.all rankMerged ranksWithin member⟩
  · rintro ⟨info, member, host, pid, ids, ranks⟩
    refine ⟨host, pid ▸ gathers.pids.within member, fun id has => ?_, fun rank has => ?_⟩
    · exact ids id has ▸ gathers.threads.within member
    · exact ranks rank has ▸ gathers.ranks.within member

theorem startsNew_iff (gathers : Gathers merging state members previous) (next : ThreadInfo) :
    hostAfter merging state.currentHost previous next =
      if startsNew merging state next then next.hostName else state.currentHost := by
  rw [hostAfter, startsNew, gathers.pid, gathers.thread, gathers.rank]

variable {next : ThreadInfo}

theorem not_startsNew (joins : startsNew merging state next = false) :
    (merging.pids = false → next.processId = state.endPid) ∧
      (merging.threads = false → next.threadId = state.endThread) ∧
        (merging.ranks = false → next.rankId = state.endRank) := by
  simp only [startsNew, Bool.or_eq_false_iff] at joins
  refine ⟨fun unmerged => ?_, fun unmerged => ?_, fun unmerged => ?_⟩
  · simpa [unmerged] using joins.1.1.2
  · simpa [unmerged] using joins.1.2
  · simpa [unmerged] using joins.2

theorem Gathers.join (gathers : Gathers merging state members previous) (single : merging.Single)
    (joins : startsNew merging state next = false) :
    Gathers merging (compressStep merging state next) (members ++ [next]) next := by
  obtain ⟨samePid, sameThread, sameRank⟩ := not_startsNew joins
  have pids (unmerged : merging.pids = false) :=
    gathers.pids.same (samePid unmerged)
  have threads (unmerged : merging.threads = false) :=
    gathers.threads.same (sameThread unmerged)
  have ranks (unmerged : merging.ranks = false) :=
    gathers.ranks.same (sameRank unmerged)
  cases rankMerged : merging.ranks with
  | true =>
    obtain ⟨threadUnmerged, pidUnmerged⟩ := single.ranks rankMerged
    have extended := (rankMerged ▸ gathers.ranks : Field true _ _ _).append next.rankId
    simp only [compressStep, joins, rankMerged, Bool.false_eq_true, ↓reduceIte]
    exact ⟨by simp, gathers.host, (samePid pidUnmerged).symm, (sameThread threadUnmerged).symm, rfl,
      by simpa using pids pidUnmerged, by simpa using threads threadUnmerged,
      by simpa [rankMerged] using extended⟩
  | false =>
    cases threadMerged : merging.threads with
    | true =>
      have pidUnmerged := single.threads threadMerged
      have extended := (threadMerged ▸ gathers.threads : Field true _ _ _).append next.threadId
      simp only [compressStep, joins, rankMerged, threadMerged, Bool.false_eq_true, ↓reduceIte]
      exact ⟨by simp, gathers.host, (samePid pidUnmerged).symm, rfl, (sameRank rankMerged).symm,
        by simpa using pids pidUnmerged, by simpa [threadMerged] using extended,
        by simpa using ranks rankMerged⟩
    | false =>
      cases pidMerged : merging.pids with
      | true =>
        have extended := (pidMerged ▸ gathers.pids : Field true _ _ _).append next.processId
        simp only [compressStep, joins, rankMerged, threadMerged, pidMerged, Bool.false_eq_true, ↓reduceIte]
        exact ⟨by simp, gathers.host, rfl, (sameThread threadMerged).symm,
          (sameRank rankMerged).symm, by simpa [pidMerged] using extended,
          by simpa using threads threadMerged, by simpa using ranks rankMerged⟩
      | false =>
        simp only [compressStep, joins, rankMerged, threadMerged, pidMerged, Bool.false_eq_true, ↓reduceIte]
        exact ⟨by simp, gathers.host, (samePid pidMerged).symm,
          (sameThread threadMerged).symm, (sameRank rankMerged).symm,
          by simpa using pids pidMerged, by simpa using threads threadMerged,
          by simpa using ranks rankMerged⟩

theorem compressStep_currentHost (joins : startsNew merging state next = false) :
    (compressStep merging state next).currentHost = state.currentHost ∧
      (compressStep merging state next).done = state.done := by
  simp only [compressStep, joins, Bool.false_eq_true, ↓reduceIte]
  split
  · exact ⟨rfl, rfl⟩
  · split
    · exact ⟨rfl, rfl⟩
    · split <;> exact ⟨rfl, rfl⟩

variable (canonicalName) in
theorem selects_foldl_iff (single : merging.Single) (thread : Thread) (rest : List ThreadInfo)
    (gathers : Gathers merging state members previous) : let final := rest.foldl (compressStep merging) state
    (∃ tri ∈ final.done ++ [final.currentTRI], Selects canonicalName tri thread) ↔
      (∃ tri ∈ state.done, Selects canonicalName tri thread) ∨
        (∃ info ∈ members, Fits canonicalName state.currentHost info thread) ∨
          ∃ entry ∈ writtenAfter merging state.currentHost previous rest,
            Fits canonicalName entry.1 entry.2 thread := by
  induction rest generalizing state members previous with
  | nil =>
    simp only [List.foldl_nil, List.mem_append, List.mem_singleton, or_and_right, exists_or,
      exists_eq_left, gathers.selects_iff single, writtenAfter, List.not_mem_nil, false_and,
      exists_false, or_false]
  | cons next rest ih =>
    intro final
    rw [writtenAfter, startsNew_iff gathers]
    simp only [List.mem_cons, or_and_right, exists_or, exists_eq_left]
    cases decided : startsNew merging state next with
    | true =>
      have begun : compressStep merging state next = .begin (state.done ++ [state.currentTRI]) next := by
        simp [compressStep, decided]
      have later := ih (begun ▸ gathers_begin (state.done ++ [state.currentTRI]) next)
      have host : (compressStep merging state next).currentHost = next.hostName := by
        rw [begun, Compression.begin]
      have done : (compressStep merging state next).done = state.done ++ [state.currentTRI] := by
        rw [begun, Compression.begin]
      simp only [host, done, List.mem_append, List.mem_singleton, or_and_right, exists_or,
        exists_eq_left, gathers.selects_iff single] at later
      simp only [final, List.foldl_cons, ↓reduceIte, List.mem_append, List.mem_singleton,
        or_and_right, exists_or, exists_eq_left, later, or_assoc]
    | false =>
      obtain ⟨host, done⟩ := compressStep_currentHost decided
      have later := ih (gathers.join single decided)
      simp only [host, done, List.mem_append, List.mem_singleton, or_and_right, exists_or,
        exists_eq_left] at later
      simp only [final, List.foldl_cons, Bool.false_eq_true, ↓reduceIte, List.mem_append,
        List.mem_singleton, or_and_right, exists_or, exists_eq_left, later, or_assoc]

theorem compressThreadInfo_selects_iff (cluster : List Thread) (thread : Thread) :
    (∃ tri ∈ compressThreadInfo (buildThreadInfo cluster), Selects canonicalName tri thread) ↔
      ∃ entry ∈ written cluster, Fits canonicalName entry.1 entry.2 thread := by
  unfold compressThreadInfo written
  cases sorted (buildThreadInfo cluster) with
  | nil => simp
  | cons first rest =>
    have loop := selects_foldl_iff canonicalName (mergingOf_single (first :: rest)) thread rest
      (gathers_begin [] first)
    simpa [Compression.begin] using loop

theorem sorted_perm (infos : List ThreadInfo) : (sorted infos).Perm infos :=
  List.perm_insertionSort _ infos

theorem compressThreadInfo_nonempty {cluster : List Thread} (nonempty : cluster ≠ []) :
    compressThreadInfo (buildThreadInfo cluster) ≠ [] := by
  have length := (sorted_perm (buildThreadInfo cluster)).length_eq
  unfold compressThreadInfo
  cases same : sorted (buildThreadInfo cluster) with
  | nil =>
    rw [same, buildThreadInfo, List.length_map, List.length_nil] at length
    exact absurd (List.length_eq_zero_iff.mp length.symm) nonempty
  | cons first rest => simp

theorem clusterTargets_any (files : List String) (cluster : List Thread) (thread : Thread) :
    (clusterTargets files cluster).any (includeThread canonicalName thread) = true ↔
      ∃ tri ∈ compressThreadInfo (buildThreadInfo cluster), Selects canonicalName tri thread := by
  unfold clusterTargets
  cases compressThreadInfo (buildThreadInfo cluster) with
  | nil => simp
  | cons first rest =>
    simp only [List.any_cons, Bool.or_eq_true, List.any_map, List.any_eq_true, List.mem_cons,
      or_and_right, exists_or, exists_eq_left]
    rfl

variable {tgrp cluster : List Thread}

theorem mem_filterThreadGroup (files : List String) (nonempty : cluster ≠ []) (thread : Thread) :
    thread ∈ filterThreadGroup canonicalName (clusterTargets files cluster) tgrp ↔
      thread ∈ tgrp ∧ ∃ entry ∈ written cluster, Fits canonicalName entry.1 entry.2 thread := by
  rw [← compressThreadInfo_selects_iff, ← clusterTargets_any files]
  cases same : clusterTargets files cluster with
  | nil =>
    have some := compressThreadInfo_nonempty nonempty
    unfold clusterTargets at same
    split at same
    next empty => exact absurd empty some
    next => simp at same
  | cons first rest => exact List.mem_filter

/-- The view of a cluster selects exactly its threads if and only if what is written for them
fits each of them and no other thread of the group. -/
theorem selectsExactly_iff (canonicalName : String → String) (files : List String)
    {tgrp : List Thread} (partition : Partition tgrp) {cluster : List Thread}
    (member : cluster ∈ partition.clusters) :
    SelectsExactly canonicalName files tgrp cluster ↔ ToldApart canonicalName tgrp cluster := by
  have nonempty := partition.nonempty cluster member
  have within : ∀ thread ∈ cluster, thread ∈ tgrp := fun thread inside =>
    (partition.covering thread).mpr ⟨cluster, member, inside⟩
  simp only [SelectsExactly, mem_filterThreadGroup files nonempty]
  constructor
  · intro selects
    refine ⟨fun thread inside => ((selects thread).mpr inside).2, ?_⟩
    intro thread known outside entry mem fits
    exact outside ((selects thread).mp ⟨known, entry, mem, fits⟩)
  · intro told thread
    constructor
    · rintro ⟨known, entry, mem, fits⟩
      by_contra outside
      exact told.others thread known outside entry mem fits
    · intro inside
      exact ⟨within thread inside, told.members thread inside⟩

theorem hostAfter_of_same {host : String} {previous next : ThreadInfo}
    (apart : merging.haveHosts = true) : hostAfter merging host previous next = next.hostName := by
  unfold hostAfter
  split
  next => rfl
  next joins => simp_all

theorem writtenAfter_of_haveHosts {host : String} {rest : List ThreadInfo}
    (apart : merging.haveHosts = true) :
    writtenAfter merging host previous rest = rest.map fun info => (info.hostName, info) := by
  induction rest generalizing host previous with
  | nil => rfl
  | cons next rest ih =>
    rw [writtenAfter, hostAfter_of_same apart, ih]
    rfl

theorem written_of_named {cluster : List Thread} (named : ∀ thread ∈ cluster, thread.host ≠ "") :
    written cluster = (sorted (buildThreadInfo cluster)).map fun info => (info.hostName, info) := by
  have infosNamed : ∀ info ∈ sorted (buildThreadInfo cluster), info.hostName ≠ "" := by
    intro info within
    rw [(sorted_perm _).mem_iff, buildThreadInfo, List.mem_map] at within
    obtain ⟨thread, member, rfl⟩ := within
    exact named thread member
  unfold written
  cases same : sorted (buildThreadInfo cluster) with
  | nil => rfl
  | cons first rest =>
    rw [same] at infosNamed
    cases rest with
    | nil => rfl
    | cons second rest =>
      have all : (first :: second :: rest).countP (fun info => info.hostName ≠ "") =
          (first :: second :: rest).length :=
        List.countP_eq_length.mpr fun info within => by simpa using infosNamed info within
      have apart : (mergingOf (first :: second :: rest)).haveHosts = true := by
        simp only [mergingOf, all, List.length_cons, decide_eq_true_eq]
        omega
      simp only [writtenAfter_of_haveHosts apart, List.map_cons]

def unnumbered : Thread := ⟨1, "host", 7, none, none, none⟩

def numbered : Thread := ⟨2, "host", 7, some 5, none, none⟩

def apart : Partition [unnumbered, numbered] where
  clusters := [[unnumbered], [numbered]]
  nonempty := by simp
  covering := by simp
  disjoint := by simp [unnumbered, numbered]

theorem selectsExactly_iff_unnumbered :
    SelectsExactly id [] [unnumbered, numbered] [unnumbered] ↔
      ToldApart id [unnumbered, numbered] [unnumbered] :=
  selectsExactly_iff id [] apart (by simp [apart])

theorem numbered_selects_unnumbered :
    ¬ ∀ cluster ∈ apart.clusters, SelectsExactly id [] [unnumbered, numbered] cluster := by
  intro selects
  have found : unnumbered ∈
      filterThreadGroup id (clusterTargets [] [numbered]) [unnumbered, numbered] := by decide
  have same := (selects [numbered] (by simp [apart]) unnumbered).mp found
  simp [unnumbered, numbered] at same

end OpenSpeedShop.ClusterView
