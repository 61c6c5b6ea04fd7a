import OpenSpeedShop.Queries.ClusterAnalysisCore

/-!
Clusters partition the threads from the first iteration to the last, and every
iteration but the last merges a closest pair of them.
-/

namespace OpenSpeedShop

theorem mem_of_mem_pairings {Item : Type} {items : List Item} {pair : Item × Item}
    (member : pair ∈ pairings items) : pair.1 ∈ items ∧ pair.2 ∈ items := by
  induction items with
  | nil => cases member
  | cons i rest ih =>
    rcases List.mem_append.mp member with first | later
    · obtain ⟨j, inRest, rfl⟩ := List.mem_map.mp first
      exact ⟨by simp, by simp [inRest]⟩
    · exact ⟨by simp [(ih later).1], by simp [(ih later).2]⟩

theorem mem_pairings {Item : Type} {relation : Item → Item → Prop} {items : List Item}
    (ordered : items.Pairwise relation) (asymmetric : ∀ {i j}, i ∈ items → j ∈ items →
      relation i j → relation j i → i = j) {i j : Item} (apart : i ≠ j) :
    (i, j) ∈ pairings items ↔ i ∈ items ∧ j ∈ items ∧ relation i j := by
  induction items with
  | nil => simp [pairings]
  | cons first rest ih =>
    obtain ⟨before, orderedRest⟩ := List.pairwise_cons.mp ordered
    have recursive := ih orderedRest fun inRest other =>
      asymmetric (List.mem_cons_of_mem _ inRest) (List.mem_cons_of_mem _ other)
    rw [pairings, List.mem_append, recursive]
    simp only [List.mem_map, Prod.mk.injEq, List.mem_cons]
    constructor
    · rintro (⟨other, inRest, rfl, rfl⟩ | ⟨inRest, other, related⟩)
      · exact ⟨Or.inl rfl, Or.inr inRest, before other inRest⟩
      · exact ⟨Or.inr inRest, Or.inr other, related⟩
    · rintro ⟨rfl | inRest, rfl | other, related⟩
      · exact absurd rfl apart
      · exact Or.inl ⟨j, other, rfl, rfl⟩
      · exact absurd (asymmetric (by simp [inRest]) (by simp) related (before i inRest)) apart
      · exact Or.inr ⟨inRest, other, related⟩

theorem mem_pairings_sort {threads : ThreadSet} {i j : Entry} (apart : i ≠ j) :
    (i, j) ∈ pairings threads.sort ↔ i ∈ threads ∧ j ∈ threads ∧ i ≤ j := by
  rw [mem_pairings (threads.pairwise_sort (· ≤ ·)) (fun _ _ => le_antisymm) apart]
  simp

theorem mem_pairings_inOrder {clusters : Finset ThreadSet} {i j : ThreadSet} (apart : i ≠ j) :
    (i, j) ∈ pairings (inOrder clusters) ↔ i ∈ clusters ∧ j ∈ clusters ∧ ThreadSet.AtMost i j := by
  rw [inOrder, mem_pairings (clusters.pairwise_sort ThreadSet.AtMost)
    (fun _ _ => Std.Antisymm.antisymm _ _) apart]
  simp

theorem ne_of_mem_pairings {Item : Type} {items : List Item} (nodup : items.Nodup)
    {pair : Item × Item} (member : pair ∈ pairings items) : pair.1 ≠ pair.2 := by
  induction items with
  | nil => cases member
  | cons i rest ih =>
    obtain ⟨fresh, nodupRest⟩ := List.nodup_cons.mp nodup
    rcases List.mem_append.mp member with first | later
    · obtain ⟨j, inRest, rfl⟩ := List.mem_map.mp first
      intro same
      exact fresh (same.symm ▸ inRest : (i, j).1 ∈ rest)
    · exact ih nodupRest later

namespace ClusterAnalysis

variable {Source Metric : Type}

namespace DistanceMatrix

theorem lookup_insert {table : List ((Entry × Entry) × Metric)} {entry : (Entry × Entry) × Metric}
    {key : Entry × Entry} : ((insert table entry).lookup key).isSome ↔
      (table.lookup key).isSome ∨ key = entry.1 := by
  unfold insert
  split
  · rename_i present
    constructor
    · exact Or.inl
    · rintro (known | rfl)
      · exact known
      · exact present
  · rw [List.lookup_append, Option.isSome_or, Bool.or_eq_true]
    simp

theorem lookup_foldl {pairs : List (Entry × Entry)} {value : Entry × Entry → Metric}
    {key : Entry × Entry} : ∀ {table : List ((Entry × Entry) × Metric)},
    ((pairs.foldl (fun table pair => insert table (DistanceMatrix.key pair.1 pair.2, value pair))
      table).lookup key).isSome ↔
      (table.lookup key).isSome ∨ ∃ pair ∈ pairs, key = DistanceMatrix.key pair.1 pair.2 := by
  induction pairs with
  | nil => simp
  | cons pair rest ih =>
    intro table
    rw [List.foldl_cons, ih, lookup_insert, or_assoc]
    simp

theorem key_comm (first second : Entry) : key first second = key second first := by
  unfold key
  rcases lt_trichotomy first second with below | rfl | above
  · rw [if_pos below, if_neg below.asymm]
  · rfl
  · rw [if_neg above.asymm, if_pos above]

theorem getDistance_new [Zero Metric] (individual : Individual Source Metric)
    (distance : Individual Source Metric → Entry → Entry → Metric) :
    ∀ i ∈ (new individual distance).dmThreads, ∀ j ∈ (new individual distance).dmThreads,
      ((new individual distance).getDistance i j).isSome := by
  intro i inThreads j otherInThreads
  rw [getDistance]
  split
  · rfl
  · rename_i apart
    refine lookup_foldl.mpr (Or.inr ?_)
    rcases le_total i j with below | above
    · exact ⟨(i, j), (mem_pairings_sort apart).mpr ⟨inThreads, otherInThreads, below⟩, rfl⟩
    · exact ⟨(j, i), (mem_pairings_sort (Ne.symm apart)).mpr ⟨otherInThreads, inThreads, above⟩, key_comm i j⟩

end DistanceMatrix

theorem foldlM_isSome {State Item : Type} {step : State → Item → Option State} {items : List Item}
    (steps : ∀ item ∈ items, ∀ state, (step state item).isSome) :
    ∀ state, (items.foldlM step state).isSome := by
  induction items with
  | nil => exact fun _ => rfl
  | cons item rest ih =>
    intro state
    obtain ⟨next, stepped⟩ := Option.isSome_iff_exists.mp (steps item (by simp) state)
    rw [List.foldlM_cons, stepped]
    exact ih (fun item member => steps item (by simp [member])) next

theorem overDistances_isSome [Zero Metric] {Value : Type} {distances : DistanceMatrix Metric}
    {first second : ThreadSet} (known : ∀ i ∈ first, ∀ j ∈ second, (distances.getDistance i j).isSome)
    (update : Value → Metric → Value) (start : Value) :
    ∃ value, overDistances distances first second update start = some value := by
  refine Option.isSome_iff_exists.mp (foldlM_isSome ?_ start)
  rintro ⟨i, j⟩ member value
  obtain ⟨inFirst, inSecond⟩ := List.mem_product.mp member
  obtain ⟨d, found⟩ := Option.isSome_iff_exists.mp
    (known i (by simpa using inFirst) j (by simpa using inSecond))
  simp [found]

theorem linkage_answers [Zero Metric] (replaces : Metric → Metric → Bool)
    (distances : DistanceMatrix Metric) (first second : ThreadSet) (nonempty : first.Nonempty)
    (otherNonempty : second.Nonempty)
    (known : ∀ i ∈ first, ∀ j ∈ second, (distances.getDistance i j).isSome) :
    (linkage replaces distances first second).isSome := by
  obtain ⟨value, ran⟩ := overDistances_isSome known (replaceIf replaces) none
  simp [linkage, nonempty, otherNonempty, ran]

theorem averageLinkage_answers [Zero Metric] [Add Metric] [Div Metric] [NatCast Metric]
    (distances : DistanceMatrix Metric) (first second : ThreadSet) (nonempty : first.Nonempty)
    (otherNonempty : second.Nonempty)
    (known : ∀ i ∈ first, ∀ j ∈ second, (distances.getDistance i j).isSome) :
    (averageLinkageDistance distances first second).isSome := by
  obtain ⟨value, ran⟩ := overDistances_isSome known (· + ·) 0
  simp [averageLinkageDistance, nonempty, otherNonempty, ran]

def completeLinkage [Zero Metric] [LT Metric] [DecidableLT Metric] : ClusterDistance Metric :=
  ⟨completeLinkageDistance, linkage_answers _⟩

def singleLinkage [Zero Metric] [LT Metric] [DecidableLT Metric] : ClusterDistance Metric :=
  ⟨singleLinkageDistance, linkage_answers _⟩

def averageLinkage [Zero Metric] [Add Metric] [Div Metric] [NatCast Metric] : ClusterDistance Metric :=
  ⟨averageLinkageDistance, averageLinkage_answers⟩

/-- The clusters are disjoint, none of them is empty, and together they are the
threads. -/
structure Partitions (clusters : Finset ThreadSet) (threads : ThreadSet) : Prop where
  nonempty : ∀ cluster ∈ clusters, cluster.Nonempty
  disjoint : ∀ first ∈ clusters, ∀ second ∈ clusters, first ≠ second → Disjoint first second
  covers : ∀ thread, thread ∈ threads ↔ ∃ cluster ∈ clusters, thread ∈ cluster

theorem singletons_partitions (threads : ThreadSet) :
    Partitions (threads.image fun thread => {thread}) threads where
  nonempty cluster member := by
    obtain ⟨thread, _, rfl⟩ := Finset.mem_image.mp member
    exact Finset.singleton_nonempty thread
  disjoint first member second otherMember apart := by
    obtain ⟨thread, _, rfl⟩ := Finset.mem_image.mp member
    obtain ⟨other, _, rfl⟩ := Finset.mem_image.mp otherMember
    exact Finset.disjoint_singleton.mpr fun same => apart (by rw [same])
  covers thread := by simp

theorem mem_union {clusters : Finset ThreadSet} {first second cluster : ThreadSet} :
    cluster ∈ union clusters first second ↔ cluster = first ∪ second ∨
      cluster ≠ second ∧ cluster ≠ first ∧ cluster ∈ clusters := by
  simp [union]

section

variable {clusters : Finset ThreadSet} {threads first second : ThreadSet}
  (partitions : Partitions clusters threads) (inClusters : first ∈ clusters)
  (otherInClusters : second ∈ clusters) (apart : first ≠ second)

include partitions inClusters otherInClusters

theorem disjoint_union {cluster : ThreadSet} (notFirst : cluster ≠ first)
    (notSecond : cluster ≠ second) (member : cluster ∈ clusters) : Disjoint (first ∪ second) cluster :=
  Finset.disjoint_union_left.mpr
    ⟨partitions.disjoint first inClusters cluster member (Ne.symm notFirst),
      partitions.disjoint second otherInClusters cluster member (Ne.symm notSecond)⟩

theorem union_partitions : Partitions (union clusters first second) threads where
  nonempty cluster member := by
    rcases mem_union.mp member with rfl | ⟨_, _, kept⟩
    · exact (partitions.nonempty first inClusters).mono Finset.subset_union_left
    · exact partitions.nonempty cluster kept
  disjoint one member other otherMember different := by
    rcases mem_union.mp member with rfl | ⟨notSecond, notFirst, kept⟩
    · rcases mem_union.mp otherMember with rfl | ⟨notSecond, notFirst, kept⟩
      · exact absurd rfl different
      · exact disjoint_union partitions inClusters otherInClusters notFirst notSecond kept
    · rcases mem_union.mp otherMember with rfl | ⟨_, _, otherKept⟩
      · exact (disjoint_union partitions inClusters otherInClusters notFirst notSecond kept).symm
      · exact partitions.disjoint one kept other otherKept different
  covers thread := by
    rw [partitions.covers]
    constructor
    · rintro ⟨cluster, member, inside⟩
      by_cases merged : cluster = first ∨ cluster = second
      · refine ⟨first ∪ second, mem_union.mpr (Or.inl rfl), ?_⟩
        rcases merged with rfl | rfl
        · exact Finset.mem_union_left _ inside
        · exact Finset.mem_union_right _ inside
      · obtain ⟨notFirst, notSecond⟩ := not_or.mp merged
        exact ⟨cluster, mem_union.mpr (Or.inr ⟨notSecond, notFirst, member⟩), inside⟩
    · rintro ⟨cluster, member, inside⟩
      rcases mem_union.mp member with rfl | ⟨_, _, kept⟩
      · rcases Finset.mem_union.mp inside with inFirst | inSecond
        · exact ⟨first, inClusters, inFirst⟩
        · exact ⟨second, otherInClusters, inSecond⟩
      · exact ⟨cluster, kept, inside⟩

include apart

theorem card_union : (union clusters first second).card + 1 = clusters.card := by
  have fresh : first ∪ second ∉ (clusters.erase first).erase second := by
    intro member
    obtain ⟨notSecond, member⟩ := Finset.mem_erase.mp member
    obtain ⟨notFirst, member⟩ := Finset.mem_erase.mp member
    have disjoint := disjoint_union partitions inClusters otherInClusters notFirst notSecond member
    have empty := Finset.disjoint_self_iff_empty _ |>.mp disjoint
    have nonempty := partitions.nonempty _ member
    rw [empty] at nonempty
    exact Finset.not_nonempty_empty nonempty
  have otherKept : second ∈ clusters.erase first :=
    Finset.mem_erase.mpr ⟨Ne.symm apart, otherInClusters⟩
  have one := Finset.card_erase_add_one inClusters
  have two := Finset.card_erase_add_one otherKept
  rw [union, Finset.card_insert_of_notMem fresh]
  omega

end

section

variable [Zero Metric] {distances : DistanceMatrix Metric} {clusters : Finset ThreadSet}
  {threads : ThreadSet}

def Known (distances : DistanceMatrix Metric) (threads : ThreadSet) : Prop :=
  ∀ i ∈ threads, ∀ j ∈ threads, (distances.getDistance i j).isSome

theorem Partitions.subset (partitions : Partitions clusters threads) {cluster : ThreadSet}
    (member : cluster ∈ clusters) : ∀ thread ∈ cluster, thread ∈ threads :=
  fun thread inCluster => (partitions.covers thread).mpr ⟨cluster, member, inCluster⟩

theorem mem_of_pairings_inOrder {pair : ThreadSet × ThreadSet} (member : pair ∈ pairings (inOrder clusters)) :
    pair.1 ∈ clusters ∧ pair.2 ∈ clusters ∧ pair.1 ≠ pair.2 := by
  have nodup : (inOrder clusters).Nodup := Finset.sort_nodup _ _
  obtain ⟨first, second⟩ := mem_of_mem_pairings member
  exact ⟨by simpa [inOrder] using first, by simpa [inOrder] using second, ne_of_mem_pairings nodup member⟩

theorem pairings_inOrder_ne_nil (several : 1 < clusters.card) : pairings (inOrder clusters) ≠ [] := by
  obtain ⟨i, inClusters, j, otherInClusters, apart⟩ := Finset.one_lt_card.mp several
  rcases le_total i.sort j.sort with below | above
  · exact List.ne_nil_of_mem ((mem_pairings_inOrder apart).mpr ⟨inClusters, otherInClusters, below⟩)
  · exact List.ne_nil_of_mem ((mem_pairings_inOrder (Ne.symm apart)).mpr ⟨otherInClusters, inClusters, above⟩)

theorem measured_pairings (cdistance : ClusterDistance Metric)
    (partitions : Partitions clusters threads) (known : Known distances threads) :
    ∀ pair ∈ pairings (inOrder clusters), ∃ d, cdistance.measure distances pair.1 pair.2 = some d := by
  intro pair member
  obtain ⟨first, second, _⟩ := mem_of_pairings_inOrder member
  refine Option.isSome_iff_exists.mp (cdistance.answers distances _ _
    (partitions.nonempty _ first) (partitions.nonempty _ second) ?_)
  exact fun i inFirst j inSecond => known i (partitions.subset first i inFirst) j
    (partitions.subset second j inSecond)

end

section

variable [Zero Metric] [Preorder Metric] [DecidableLT Metric] {distances : DistanceMatrix Metric}
  {cdistance : ClusterDistance Metric}

/-- The distance is that of two distinct clusters, and no pair has a lower one.
Each pair is measured in the order of the clusters. -/
structure Closest (distances : DistanceMatrix Metric) (cdistance : ClusterDistance Metric)
    (clusters : Finset ThreadSet) (distance : Metric) (first second : ThreadSet) : Prop where
  inClusters : first ∈ clusters
  otherInClusters : second ∈ clusters
  apart : first ≠ second
  measured : cdistance.measure distances first second = some distance
  minimal : ∀ i ∈ clusters, ∀ j ∈ clusters, i ≠ j → ThreadSet.AtMost i j → ∀ d,
    cdistance.measure distances i j = some d → ¬ d < distance

structure MinimumOver (distances : DistanceMatrix Metric) (cdistance : ClusterDistance Metric)
    (pairs : List (ThreadSet × ThreadSet)) (minimum : Minimum Metric) : Prop where
  isNone : minimum = none → pairs = []
  isSome : ∀ distance pair, minimum = some (distance, pair) → pair ∈ pairs ∧
    cdistance.measure distances pair.1 pair.2 = some distance ∧
    ∀ other ∈ pairs, ∀ d, cdistance.measure distances other.1 other.2 = some d → ¬ d < distance

theorem replaceMinimum_total {seen : List (ThreadSet × ThreadSet)} {minimum : Minimum Metric}
    (overSeen : MinimumOver distances cdistance seen minimum) {pair : ThreadSet × ThreadSet} {d : Metric}
    (measured : cdistance.measure distances pair.1 pair.2 = some d) :
    ∃ next, replaceMinimum distances cdistance minimum pair = some next ∧
      MinimumOver distances cdistance (seen ++ [pair]) next := by
  have first : (∀ other ∈ seen, ∀ e, cdistance.measure distances other.1 other.2 = some e →
      ¬ e < d) → MinimumOver distances cdistance (seen ++ [pair]) (some (d, pair)) := by
    intro noneLower
    refine ⟨by simp, fun distance found same => ?_⟩
    obtain ⟨rfl, rfl⟩ := Prod.mk.inj (Option.some.inj same)
    refine ⟨by simp, measured, fun other member e otherMeasured => ?_⟩
    rcases List.mem_append.mp member with old | new
    · exact noneLower other old e otherMeasured
    · rw [List.mem_singleton.mp new, measured] at otherMeasured
      exact Option.some.inj otherMeasured ▸ lt_irrefl _
  cases minimum with
  | none =>
    have nothing := overSeen.isNone rfl
    refine ⟨some (d, pair), by simp [replaceMinimum, measured], first ?_⟩
    simp [nothing]
  | some existing =>
    obtain ⟨distance, held⟩ := existing
    obtain ⟨member, heldMeasured, noneLower⟩ := overSeen.isSome distance held rfl
    by_cases less : d < distance
    · refine ⟨some (d, pair), by simp [replaceMinimum, measured, less], first ?_⟩
      intro other inSeen e otherMeasured below
      exact noneLower other inSeen e otherMeasured (below.trans less)
    · refine ⟨some (distance, held), by simp [replaceMinimum, measured, less], by simp, ?_⟩
      intro found foundPair same
      obtain ⟨rfl, rfl⟩ := Prod.mk.inj (Option.some.inj same)
      refine ⟨by simp [member], heldMeasured, fun other inSeen e otherMeasured => ?_⟩
      rcases List.mem_append.mp inSeen with old | new
      · exact noneLower other old e otherMeasured
      · rw [List.mem_singleton.mp new, measured] at otherMeasured
        exact Option.some.inj otherMeasured ▸ less

theorem foldlM_replaceMinimum (rest : List (ThreadSet × ThreadSet)) :
    ∀ {seen : List (ThreadSet × ThreadSet)} {minimum : Minimum Metric},
    MinimumOver distances cdistance seen minimum →
    (∀ pair ∈ rest, ∃ d, cdistance.measure distances pair.1 pair.2 = some d) →
    ∃ final, rest.foldlM (replaceMinimum distances cdistance) minimum = some final ∧
      MinimumOver distances cdistance (seen ++ rest) final := by
  induction rest with
  | nil =>
    intro seen minimum overSeen _
    exact ⟨minimum, rfl, by simpa using overSeen⟩
  | cons pair rest ih =>
    intro seen minimum overSeen measured
    obtain ⟨d, first⟩ := measured pair (by simp)
    obtain ⟨next, replaced, overNext⟩ := replaceMinimum_total overSeen first
    obtain ⟨final, ran, overFinal⟩ :=
      ih overNext fun other member => measured other (by simp [member])
    exact ⟨final, by rw [List.foldlM_cons, replaced]; exact ran, by simpa using overFinal⟩

theorem findMinimum_total {clusters : Finset ThreadSet} {threads : ThreadSet}
    (partitions : Partitions clusters threads) (known : Known distances threads)
    (several : 1 < clusters.card) :
    ∃ distance first second, findMinimum distances cdistance clusters = some (some (distance, first, second)) ∧
      Closest distances cdistance clusters distance first second := by
  have start : MinimumOver distances cdistance [] (none : Minimum Metric) := ⟨fun _ => rfl, by simp⟩
  obtain ⟨minimum, ran, overSeen⟩ :=
    foldlM_replaceMinimum _ start (measured_pairings cdistance partitions known)
  rw [List.nil_append] at overSeen
  cases minimum with
  | none => exact absurd (overSeen.isNone rfl) (pairings_inOrder_ne_nil several)
  | some found =>
    obtain ⟨distance, first, second⟩ := found
    obtain ⟨member, heldMeasured, noneLower⟩ := overSeen.isSome distance (first, second) rfl
    obtain ⟨inClusters, otherInClusters, apart⟩ := mem_of_pairings_inOrder member
    refine ⟨distance, first, second, ran, inClusters, otherInClusters, apart, heldMeasured, ?_⟩
    intro i iIn j jIn different ordered d otherMeasured
    exact noneLower (i, j) ((mem_pairings_inOrder different).mpr ⟨iIn, jIn, ordered⟩) d otherMeasured

end

section

variable [Zero Metric] [LT Metric] [DecidableLT Metric] {distances : DistanceMatrix Metric}
  {cdistance : ClusterDistance Metric} {criterion : Criterion Metric}
  {clusters next result : Finset ThreadSet}

theorem loop_few (few : ¬ clusters.card > 1) :
    ∀ fuel > clusters.card, loop distances cdistance criterion fuel clusters = some clusters := by
  intro fuel enough
  obtain ⟨fuel, rfl⟩ := Nat.exists_eq_succ_of_ne_zero (Nat.ne_zero_of_lt enough)
  rw [loop, if_neg few]
  rfl

theorem loop_stops (several : clusters.card > 1)
    (iterated : iterate distances cdistance criterion clusters = some (false, next)) :
    ∀ fuel > clusters.card, loop distances cdistance criterion fuel clusters = some next := by
  intro fuel enough
  obtain ⟨fuel, rfl⟩ := Nat.exists_eq_succ_of_ne_zero (Nat.ne_zero_of_lt enough)
  rw [loop, if_pos several, iterated]
  rfl

theorem loop_goesOn (several : clusters.card > 1)
    (iterated : iterate distances cdistance criterion clusters = some (true, next))
    (drops : next.card < clusters.card)
    (ran : ∀ fuel > next.card, loop distances cdistance criterion fuel next = some result) :
    ∀ fuel > clusters.card, loop distances cdistance criterion fuel clusters = some result := by
  intro fuel enough
  obtain ⟨fuel, rfl⟩ := Nat.exists_eq_succ_of_ne_zero (Nat.ne_zero_of_lt enough)
  rw [loop, if_pos several, iterated]
  exact ran fuel (by omega)

end

section

variable [Zero Metric] [Preorder Metric] [DecidableLT Metric]

def Ends (distances : DistanceMatrix Metric) (cdistance : ClusterDistance Metric)
    (criterion : Criterion Metric) (clusters : Finset ThreadSet) : Prop :=
  clusters.card ≤ 1 ∨ clusters.card < 5 ∧ ∃ distance first second,
    Closest distances cdistance clusters distance first second ∧
      criterion.holds distances clusters distance first second = some true

/-- Iterations that each replace a closest pair by its union, so that there is one
cluster less. -/
inductive Merges (distances : DistanceMatrix Metric) (cdistance : ClusterDistance Metric) :
    Finset ThreadSet → Finset ThreadSet → Prop
  | done (clusters : Finset ThreadSet) : Merges distances cdistance clusters clusters
  | merge {clusters result : Finset ThreadSet} {distance : Metric} {first second : ThreadSet}
      (closest : Closest distances cdistance clusters distance first second)
      (drops : (union clusters first second).card + 1 = clusters.card)
      (rest : Merges distances cdistance (union clusters first second) result) :
      Merges distances cdistance clusters result

variable {distances : DistanceMatrix Metric} {cdistance : ClusterDistance Metric}
  {criterion : Criterion Metric} {threads : ThreadSet}

theorem iterate_total {clusters : Finset ThreadSet} (partitions : Partitions clusters threads)
    (known : Known distances threads) (several : 1 < clusters.card) :
    iterate distances cdistance criterion clusters = some (false, clusters) ∧
        Ends distances cdistance criterion clusters ∨
      ∃ distance first second, Closest distances cdistance clusters distance first second ∧
        iterate distances cdistance criterion clusters = some (true, union clusters first second) := by
  obtain ⟨distance, first, second, found, closest⟩ :=
    @findMinimum_total _ _ _ _ _ cdistance _ _ partitions known several
  have within : ∀ {cluster}, cluster ∈ clusters →
      ∀ i ∈ cluster, ∀ j ∈ cluster, (distances.getDistance i j).isSome :=
    fun member i inCluster j other =>
      known i (partitions.subset member i inCluster) j (partitions.subset member j other)
  obtain ⟨terminates, answered⟩ := Option.isSome_iff_exists.mp (criterion.answers distances
    clusters distance first second (partitions.nonempty _ closest.inClusters)
    (partitions.nonempty _ closest.otherInClusters) (within closest.inClusters)
    (within closest.otherInClusters))
  by_cases stops : terminates = true ∧ clusters.card < 5
  · left
    obtain ⟨rfl, few⟩ := stops
    refine ⟨?_, Or.inr ⟨few, distance, first, second, closest, answered⟩⟩
    simp [iterate, found, answered, few]
  · right
    refine ⟨distance, first, second, closest, ?_⟩
    simp [iterate, found, answered, stops]

theorem loop_total {count : Nat} : ∀ {clusters : Finset ThreadSet}, clusters.card ≤ count →
    Partitions clusters threads → Known distances threads →
    ∃ result, (∀ fuel > clusters.card, loop distances cdistance criterion fuel clusters = some result) ∧
      Partitions result threads ∧ Merges distances cdistance clusters result ∧
      Ends distances cdistance criterion result ∧ (clusters.Nonempty → result.Nonempty) := by
  induction count with
  | zero =>
    intro clusters none partitions known
    exact ⟨clusters, loop_few (by omega), partitions, .done clusters, Or.inl (by omega), id⟩
  | succ count ih =>
    intro clusters atMost partitions known
    by_cases several : clusters.card > 1
    · rcases @iterate_total _ _ _ _ distances cdistance criterion _ _ partitions known several with
        ⟨iterated, ends⟩ | ⟨distance, first, second, closest, iterated⟩
      · exact ⟨clusters, loop_stops several iterated, partitions, .done clusters, ends, id⟩
      · have drops := card_union partitions closest.inClusters closest.otherInClusters closest.apart
        have merged := union_partitions partitions closest.inClusters closest.otherInClusters
        obtain ⟨result, ran, resultPartitions, merges, ends, nonempty⟩ :=
          ih (by omega) merged known
        refine ⟨result, loop_goesOn several iterated (by omega) ran, resultPartitions,
          .merge closest drops merges, ends, fun _ => nonempty ?_⟩
        exact Finset.card_pos.mp (by omega)
    · exact ⟨clusters, loop_few several, partitions, .done clusters, Or.inl (by omega), id⟩

/-- Clustering ends, with a partition of the threads into one cluster less for every iteration but the
last, each merging a closest pair. -/
theorem apply_partitions (individual : Individual Source Metric)
    (idistance : Individual Source Metric → Entry → Entry → Metric)
    (cdistance : ClusterDistance Metric) (criterion : Criterion Metric) :
    ∃ distances, distances = DistanceMatrix.new individual idistance ∧
      Known distances distances.dmThreads ∧
      (∀ thread, thread ∈ distances.dmThreads ↔ ∃ entry ∈ individual, ∃ value ∈ entry.2, value.1 = thread) ∧
      ∃ result, (∀ fuel > distances.dmThreads.card,
          apply individual idistance cdistance criterion fuel = some result) ∧
        Partitions result distances.dmThreads ∧
        Merges distances cdistance (distances.dmThreads.image fun thread => {thread}) result ∧
        Ends distances cdistance criterion result ∧
        (distances.dmThreads.Nonempty → result.Nonempty) := by
  refine ⟨_, rfl, DistanceMatrix.getDistance_new individual idistance, ?_, ?_⟩
  · intro thread
    simp [DistanceMatrix.new]
  · have partitions := singletons_partitions (DistanceMatrix.new individual idistance).dmThreads
    have known := DistanceMatrix.getDistance_new individual idistance
    have few := @Finset.card_image_le _ _ (DistanceMatrix.new individual idistance).dmThreads
      (fun thread => ({thread} : ThreadSet)) _
    obtain ⟨result, ran, resultPartitions, merges, ends, nonempty⟩ :=
      @loop_total _ _ _ _ _ cdistance criterion _ _ _ le_rfl partitions known
    refine ⟨result, fun fuel enough => ran fuel (lt_of_le_of_lt few enough), resultPartitions,
      merges, ends, fun some => nonempty (some.image _)⟩

end

end ClusterAnalysis

end OpenSpeedShop
