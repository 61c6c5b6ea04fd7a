import OpenSpeedShop.Cli.ClusterView

/-! The threads that the compressed entries of `Compress_ThreadInfo` stand for. -/

namespace OpenSpeedShop.ClusterView

open IntRanges (Within)

def ThreadRangeInfo.Denotes (tri : ThreadRangeInfo) (info : ThreadInfo) : Prop :=
  tri.hostName = info.hostName ∧ Within tri.processId info.processId ∧
    Within tri.threadId info.threadId ∧ Within tri.rankId info.rankId

structure ThreadRangeInfo.Filled (tri : ThreadRangeInfo) : Prop where
  pids : tri.processId ≠ []
  threads : tri.threadId ≠ []
  ranks : tri.rankId ≠ []

theorem Gathers.filled {merging : Merging} {state : Compression} {members : List ThreadInfo}
    {previous : ThreadInfo} (gathers : Gathers merging state members previous) : state.currentTRI.Filled :=
  ⟨gathers.pids.covers.nonempty, gathers.threads.covers.nonempty, gathers.ranks.covers.nonempty⟩

theorem filled_foldl {merging : Merging} (single : merging.Single) (rest : List ThreadInfo) :
    ∀ {state : Compression} {members : List ThreadInfo} {previous : ThreadInfo},
      Gathers merging state members previous → (∀ tri ∈ state.done, tri.Filled) →
      let final := rest.foldl (compressStep merging) state
      ∀ tri ∈ final.done ++ [final.currentTRI], tri.Filled := by
  induction rest with
  | nil =>
    intro state members previous gathers done
    exact List.forall_mem_append.mpr ⟨done, List.forall_mem_singleton.mpr gathers.filled⟩
  | cons next rest ih =>
    intro state members previous gathers done
    cases decided : startsNew merging state next with
    | true =>
      have begun : compressStep merging state next = .begin (state.done ++ [state.currentTRI]) next := by
        simp [compressStep, decided]
      rw [List.foldl_cons, begun]
      refine ih (gathers_begin _ next) ?_
      exact List.forall_mem_append.mpr ⟨done, List.forall_mem_singleton.mpr gathers.filled⟩
    | false =>
      obtain ⟨_, same⟩ := compressStep_currentHost decided
      exact ih (gathers.join single decided) (same ▸ done)

theorem compressThreadInfo_filled (infos : List ThreadInfo) :
    ∀ tri ∈ compressThreadInfo infos, tri.Filled := by
  unfold compressThreadInfo
  cases sorted infos with
  | nil => simp
  | cons first rest =>
    exact filled_foldl (mergingOf_single (first :: rest)) rest (gathers_begin [] first) (by
      simp [Compression.begin])

def ThreadInfo.thread (info : ThreadInfo) : Thread :=
  ⟨0, info.hostName, info.processId, none, some info.threadId, some info.rankId⟩

theorem buildThreadInfo_thread (infos : List ThreadInfo) :
    buildThreadInfo (infos.map ThreadInfo.thread) = infos := by
  rw [buildThreadInfo, List.map_map]
  exact List.map_id infos

theorem ThreadRangeInfo.Filled.denotes_iff {tri : ThreadRangeInfo} (filled : tri.Filled)
    (info : ThreadInfo) : tri.Denotes info ↔ Selects id tri info.thread := by
  rw [selects_iff filled.pids filled.threads filled.ranks, Denotes]
  simp [ThreadInfo.thread, Thread.threadId]

theorem fits_thread_iff {info other : ThreadInfo} :
    Fits id other.hostName other info.thread ↔ other = info := by
  simp only [Fits, ThreadInfo.thread, Thread.threadId, id, Option.mem_some_iff, forall_eq']
  constructor
  · rintro ⟨host, pid, thread, rank⟩
    cases other
    cases info
    simp_all
  · rintro rfl
    exact ⟨rfl, rfl, rfl, rfl⟩

/-- The entries stand for the threads that were put in, and for no others. -/
theorem compressThreadInfo_denotes_iff {infos : List ThreadInfo}
    (named : ∀ info ∈ infos, info.hostName ≠ "") (info : ThreadInfo) :
    (∃ tri ∈ compressThreadInfo infos, tri.Denotes info) ↔ info ∈ infos := by
  have selects := @compressThreadInfo_selects_iff id (infos.map ThreadInfo.thread) info.thread
  rw [written_of_named (by simpa [ThreadInfo.thread] using named), buildThreadInfo_thread] at selects
  have denotes : (∃ tri ∈ compressThreadInfo infos, tri.Denotes info) ↔
      ∃ tri ∈ compressThreadInfo infos, Selects id tri info.thread :=
    exists_congr fun tri => and_congr_right fun member =>
      (compressThreadInfo_filled infos tri member).denotes_iff info
  rw [denotes, selects, ← (sorted_perm infos).mem_iff]
  simp only [List.mem_map, exists_exists_and_eq_and, fits_thread_iff, exists_eq_right]

def fourInfos : List ThreadInfo :=
  [⟨"b", 7, 0, 6⟩, ⟨"a", 7, 0, 5⟩, ⟨"a", 7, 0, 4⟩, ⟨"a", 7, 0, 5⟩]

theorem compressThreadInfo_fourInfos :
    (∃ tri ∈ compressThreadInfo fourInfos, tri.Denotes ⟨"a", 7, 0, 6⟩) ↔
      (⟨"a", 7, 0, 6⟩ : ThreadInfo) ∈ fourInfos :=
  compressThreadInfo_denotes_iff (by decide) ⟨"a", 7, 0, 6⟩

end OpenSpeedShop.ClusterView
