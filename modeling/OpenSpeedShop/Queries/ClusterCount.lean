import OpenSpeedShop.Queries.ClusterAnalysis

/-!
How many clusters a requested number gives: the termination criterion is only
heeded once there are fewer than five.
-/

namespace OpenSpeedShop.ClusterAnalysis

variable {Source Metric : Type} [Zero Metric] [LT Metric] [DecidableLT Metric]
  {distances : DistanceMatrix Metric} {cdistance : ClusterDistance Metric}
  {clusters : Finset ThreadSet} {threads : ThreadSet} {dmCount : Nat}

theorem replaceMinimum_pair {minimum : Minimum Metric} {pair : ThreadSet × ThreadSet} {d : Metric}
    (measured : cdistance.measure distances pair.1 pair.2 = some d) :
    ∃ found, replaceMinimum distances cdistance minimum pair = some (some found) ∧
      (found.2 = pair ∨ minimum = some found) := by
  cases minimum with
  | none => exact ⟨(d, pair), by simp [replaceMinimum, measured], Or.inl rfl⟩
  | some existing =>
    by_cases less : d < existing.1
    · exact ⟨(d, pair), by simp [replaceMinimum, measured, less], Or.inl rfl⟩
    · exact ⟨existing, by simp [replaceMinimum, measured, less], Or.inr rfl⟩

theorem foldlM_replaceMinimum_pair {rest : List (ThreadSet × ThreadSet)} :
    ∀ {found : Metric × ThreadSet × ThreadSet},
    (∀ pair ∈ rest, ∃ d, cdistance.measure distances pair.1 pair.2 = some d) →
    ∃ final, rest.foldlM (replaceMinimum distances cdistance) (some found) = some (some final) ∧
      (final.2 = found.2 ∨ final.2 ∈ rest) := by
  induction rest with
  | nil =>
    intro found _
    exact ⟨found, rfl, Or.inl rfl⟩
  | cons pair rest ih =>
    intro found measured
    obtain ⟨d, first⟩ := measured pair (by simp)
    obtain ⟨next, replaced, which⟩ :=
      @replaceMinimum_pair _ _ _ _ distances cdistance (some found) _ _ first
    obtain ⟨final, ran, chosen⟩ := @ih next fun other member => measured other (by simp [member])
    refine ⟨final, by rw [List.foldlM_cons, replaced]; exact ran, ?_⟩
    rcases chosen with same | later
    · rcases which with new | kept
      · exact Or.inr (by rw [same, new]; exact List.mem_cons_self)
      · exact Or.inl (by rw [same, Option.some.inj kept])
    · exact Or.inr (List.mem_cons_of_mem _ later)

theorem findMinimum_pair (partitions : Partitions clusters threads) (known : Known distances threads)
    (several : 1 < clusters.card) :
    ∃ distance first second, findMinimum distances cdistance clusters = some (some (distance, first, second)) ∧
      first ∈ clusters ∧ second ∈ clusters ∧ first ≠ second := by
  have measured := measured_pairings cdistance partitions known
  have inside := @mem_of_pairings_inOrder clusters
  unfold findMinimum
  cases pairs : pairings (inOrder clusters) with
  | nil => exact absurd pairs (pairings_inOrder_ne_nil several)
  | cons pair rest =>
    rw [pairs] at measured inside
    obtain ⟨d, here⟩ := measured pair List.mem_cons_self
    obtain ⟨⟨distance, first, second⟩, ran, chosen⟩ :=
      @foldlM_replaceMinimum_pair _ _ _ _ distances cdistance rest (d, pair)
        fun other member => measured other (List.mem_cons_of_mem _ member)
    have member : (first, second) ∈ pair :: rest := by
      rcases chosen with same | later
      · exact List.mem_cons.mpr (Or.inl same)
      · exact List.mem_cons_of_mem _ later
    refine ⟨distance, first, second, ?_, inside member⟩
    rw [List.foldlM_cons]
    simp only [replaceMinimum, here, Option.bind_eq_bind, Option.bind_some]
    exact ran

theorem iterate_numberCriterion1 (partitions : Partitions clusters threads)
    (known : Known distances threads) (several : 1 < clusters.card) : (clusters.card ≤ min dmCount 4 ∧
        iterate distances cdistance (numberCriterion1 dmCount) clusters = some (false, clusters)) ∨
      ∃ first second, min dmCount 4 < clusters.card ∧
        iterate distances cdistance (numberCriterion1 dmCount) clusters =
          some (true, union clusters first second) ∧ Partitions (union clusters first second) threads ∧
        (union clusters first second).card + 1 = clusters.card := by
  obtain ⟨distance, first, second, found, inClusters, otherInClusters, apart⟩ :=
    @findMinimum_pair _ _ _ _ _ cdistance _ _ partitions known several
  by_cases stops : clusters.card ≤ min dmCount 4
  · left
    have few : clusters.card ≤ dmCount ∧ clusters.card < 5 := by omega
    refine ⟨stops, ?_⟩
    simp [iterate, found, numberCriterion1, few]
  · right
    refine ⟨first, second, by omega, ?_, union_partitions partitions inClusters otherInClusters,
      card_union partitions inClusters otherInClusters apart⟩
    by_cases wanted : clusters.card ≤ dmCount
    · have many : ¬ clusters.card < 5 := by omega
      simp [iterate, found, numberCriterion1, wanted, many]
    · simp [iterate, found, numberCriterion1, wanted]

theorem loop_card {count : Nat} (requested : 1 ≤ dmCount) :
    ∀ {clusters : Finset ThreadSet}, clusters.card ≤ count →
    Partitions clusters threads → Known distances threads → ∃ result, (∀ fuel > clusters.card,
        loop distances cdistance (numberCriterion1 dmCount) fuel clusters = some result) ∧
      result.card = min clusters.card (min dmCount 4) := by
  induction count with
  | zero =>
    intro clusters none _ _
    exact ⟨clusters, loop_few (by omega), by omega⟩
  | succ count ih =>
    intro clusters atMost partitions known
    by_cases several : 1 < clusters.card
    · rcases @iterate_numberCriterion1 _ _ _ _ distances cdistance _ _ dmCount partitions known
        several with ⟨few, iterated⟩ | ⟨first, second, many, iterated, merged, drops⟩
      · exact ⟨clusters, loop_stops several iterated, by omega⟩
      · obtain ⟨result, ran, card⟩ := ih (by omega) merged known
        exact ⟨result, loop_goesOn several iterated (by omega) ran, by omega⟩
    · exact ⟨clusters, loop_few several, by omega⟩

theorem apply_card (individual : Individual Source Metric)
    (idistance : Individual Source Metric → Entry → Entry → Metric)
    (cdistance : ClusterDistance Metric) (requested : 1 ≤ dmCount) :
    ∃ result, (∀ fuel > (DistanceMatrix.new individual idistance).dmThreads.card,
        apply individual idistance cdistance (numberCriterion1 dmCount) fuel = some result) ∧
      result.card = min dmCount (min (DistanceMatrix.new individual idistance).dmThreads.card 4) := by
  have card : ((DistanceMatrix.new individual idistance).dmThreads.image fun thread =>
      ({thread} : ThreadSet)).card = (DistanceMatrix.new individual idistance).dmThreads.card :=
    Finset.card_image_of_injective _ Finset.singleton_injective
  obtain ⟨result, ran, resultCard⟩ := @loop_card _ _ _ _ _ cdistance _ dmCount _ requested _
    le_rfl (singletons_partitions _) (DistanceMatrix.getDistance_new individual idistance)
  rw [card] at ran resultCard
  exact ⟨result, ran, by omega⟩

/-- A requested number of clusters is reached when there are as many threads, except
that at most four are left. -/
theorem numberCriterion1_card (individual : Individual Source Metric)
    (idistance : Individual Source Metric → Entry → Entry → Metric)
    (cdistance : ClusterDistance Metric) {dmCount : Nat} (requested : 1 ≤ dmCount) :
    ∃ threads : ThreadSet, (∀ thread, thread ∈ threads ↔
        ∃ entry ∈ individual, ∃ value ∈ entry.2, value.1 = thread) ∧
      ∃ result, (∀ fuel > threads.card,
          apply individual idistance cdistance (numberCriterion1 dmCount) fuel = some result) ∧
        result.card = min dmCount (min threads.card 4) := by
  refine ⟨(DistanceMatrix.new individual idistance).dmThreads, fun thread => ?_, ?_⟩
  · simp [DistanceMatrix.new]
  · exact apply_card individual idistance cdistance requested

def oneValueEach (count : Nat) : Individual Unit Nat :=
  [((), (List.range count).map fun number : Nat => (⟨1, Int.ofNat number⟩, number))]

theorem numberCriterion1_card_three : 1 ≤ 3 ∧ ∃ threads : ThreadSet,
    (∀ thread, thread ∈ threads ↔ ∃ entry ∈ oneValueEach 7, ∃ value ∈ entry.2, value.1 = thread) ∧
      ∃ result, (∀ fuel > threads.card, apply (oneValueEach 7) (fun _ _ _ => (1 : Nat))
          completeLinkage (numberCriterion1 3) fuel = some result) ∧
        result.card = min 3 (min threads.card 4) :=
  ⟨by decide, numberCriterion1_card (oneValueEach 7) (fun _ _ _ => 1) completeLinkage (by decide)⟩

theorem fiveRequested_fourMade :
    (DistanceMatrix.new (oneValueEach 5) fun _ _ _ => (1 : Nat)).dmThreads.card = 5 ∧
      ∃ result, (∀ fuel > 5, apply (oneValueEach 5) (fun _ _ _ => (1 : Nat)) completeLinkage
          (numberCriterion1 5) fuel = some result) ∧ result.card ≠ min 5 5 := by
  have card : (DistanceMatrix.new (oneValueEach 5) fun _ _ _ => (1 : Nat)).dmThreads.card = 5 := by
    decide
  obtain ⟨result, ran, made⟩ := @apply_card _ _ _ _ _ 5 (oneValueEach 5) (fun _ _ _ => (1 : Nat))
    completeLinkage (by decide)
  rw [card] at ran made
  refine ⟨card, result, ran, ?_⟩
  rw [made]
  decide

end OpenSpeedShop.ClusterAnalysis
