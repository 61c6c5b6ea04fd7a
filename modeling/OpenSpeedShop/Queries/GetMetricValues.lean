import OpenSpeedShop.Library.Fallible
import OpenSpeedShop.Queries.GetMetricValuesCore
import Mathlib.Data.Nat.ModEq

/-!
The parallel reduction computes the serial sums as long as the element numbers
of all the iterations are values of an `int`.
-/

namespace OpenSpeedShop.GetMetricValues

open Option (bind_eq_some_iff bind_some bind_eq_bind)

theorem mem_elementsFrom {size : Nat} {i : Fin size} : ∀ {rounds element : Nat},
    i ∈ elementsFrom size rounds element ↔ element ≤ i.val ∧ i.val < element + rounds := by
  intro rounds
  induction rounds with
  | zero =>
    intro element
    simp only [elementsFrom, List.not_mem_nil, false_iff]
    omega
  | succ rounds ih =>
    intro element
    rw [elementsFrom]
    split
    · simp only [List.mem_cons, Fin.ext_iff, ih]
      omega
    · have bound := i.isLt
      simp only [List.not_mem_nil, false_iff]
      omega

theorem elementsFrom_nodup (size : Nat) : ∀ rounds element, (elementsFrom size rounds element).Nodup := by
  intro rounds
  induction rounds with
  | zero => exact fun _ => List.nodup_nil
  | succ rounds ih =>
    intro element
    rw [elementsFrom]
    split
    · refine List.nodup_cons.mpr ⟨fun member => ?_, ih _⟩
      have later := (mem_elementsFrom.mp member).1
      simp only at later
      omega
    · exact List.nodup_nil

def share (size numThreads : Nat) : Nat := (size + numThreads - 1) / numThreads

def Fits (size numThreads : Nat) : Prop :=
  share size numThreads * max numThreads (2 * numThreads - 2) < 2 ^ 31

section

variable {size numThreads : Nat} (someThreads : 0 < numThreads) (someElements : 0 < size)

include someThreads

theorem le_share_mul : size ≤ share size numThreads * numThreads := by
  have split := Nat.div_add_mod (size + numThreads - 1) numThreads
  have rest := Nat.mod_lt (size + numThreads - 1) someThreads
  rw [share, Nat.mul_comm]
  omega

include someElements

theorem share_pos : 0 < share size numThreads :=
  Nat.div_pos (by omega) someThreads

theorem share_pred_mul_lt : (share size numThreads - 1) * numThreads < size := by
  have split := Nat.div_mul_le_self (size + numThreads - 1) numThreads
  rw [Nat.sub_mul, share]
  omega

end

theorem int?_of_lt {value : Nat} (fits : value < 2 ^ 31) : int? value = some (value : Int) := by
  have inside : -2 ^ 31 ≤ (value : Int) ∧ (value : Int) < 2 ^ 31 := by
    constructor <;> omega
  rw [int?, if_pos inside]

variable {size numThreads : Nat}

theorem elementCount_of_lt (fits : share size numThreads < 2 ^ 31) :
    elementCount size numThreads = (share size numThreads : Int) := by
  have lower : -(((2 ^ 32 : Nat) : Int) / 2) ≤ (share size numThreads : Int) := by omega
  have upper : (share size numThreads : Int) < (((2 ^ 32 : Nat) : Int) + 1) / 2 := by omega
  exact Int.bmod_eq_of_le lower upper

theorem elements_of_fits (someThreads : 0 < numThreads)
    (someElements : 0 < size) (fits : Fits size numThreads) {j threadNum : Nat}
    (iterationBound : j < numThreads) (threadBound : threadNum < numThreads) :
    elements size (elementCount size numThreads) numThreads j threadNum =
      some (elementsFrom size (share size numThreads)
        (share size numThreads * ((j + threadNum) % numThreads))) := by
  have positive := share_pos someThreads someElements
  have wholeFits : share size numThreads * numThreads < 2 ^ 31 :=
    Nat.lt_of_le_of_lt (Nat.mul_le_mul_left _ (Nat.le_max_left _ _)) fits
  have productFits : share size numThreads * (j + threadNum) < 2 ^ 31 :=
    Nat.lt_of_le_of_lt (Nat.mul_le_mul_left _ (by omega)) fits
  have sumFits : j + threadNum < 2 ^ 31 :=
    Nat.lt_of_le_of_lt (Nat.le_mul_of_pos_left _ positive) productFits
  have countFits : share size numThreads < 2 ^ 31 :=
    Nat.lt_of_le_of_lt (Nat.le_mul_of_pos_right _ someThreads) wholeFits
  have nonzero : ((share size numThreads * numThreads : Nat) : Int) ≠ 0 := by
    exact_mod_cast (Nat.mul_pos positive someThreads).ne'
  have sumCast : (j : Int) + threadNum = ((j + threadNum : Nat) : Int) :=
    (Int.natCast_add _ _).symm
  have productCast : (share size numThreads : Int) * ((j + threadNum : Nat) : Int) =
      ((share size numThreads * (j + threadNum) : Nat) : Int) := (Int.natCast_mul _ _).symm
  have wholeCast : (share size numThreads : Int) * numThreads =
      ((share size numThreads * numThreads : Nat) : Int) := (Int.natCast_mul _ _).symm
  have firstCast : (((share size numThreads * (j + threadNum) : Nat) : Int).tmod
      ((share size numThreads * numThreads : Nat) : Int)).toNat =
      share size numThreads * ((j + threadNum) % numThreads) := by
    rw [← Int.ofNat_tmod, Int.toNat_natCast, Nat.mul_mod_mul_left]
  rw [elementCount_of_lt countFits, elements]
  simp only [bind_eq_bind]
  rw [sumCast, int?_of_lt sumFits, bind_some, productCast, int?_of_lt productFits,
    bind_some, wholeCast, int?_of_lt wholeFits, bind_some, if_neg nonzero,
    firstCast, Int.toNat_natCast, Option.pure_def]

theorem mem_piece (someThreads : 0 < numThreads) (someElements : 0 < size) {i : Fin size} {piece : Nat} :
    i ∈ elementsFrom size (share size numThreads) (share size numThreads * piece) ↔
      i.val / share size numThreads = piece := by
  have positive := share_pos someThreads someElements
  rw [mem_elementsFrom, Nat.div_eq_iff positive, Nat.mul_comm]
  omega

/-- The iteration in which a thread writes a piece, and the thread that writes the
piece during an iteration. -/
def partner (numThreads piece other : Nat) : Nat := (piece + numThreads - other) % numThreads

section

variable {numThreads piece other : Nat} (pieceBound : piece < numThreads) (otherBound : other < numThreads)

include pieceBound

theorem partner_lt : partner numThreads piece other < numThreads :=
  Nat.mod_lt _ (by omega)

include otherBound

theorem partner_eq_iff {one : Nat} (oneBound : one < numThreads) :
    (one + other) % numThreads = piece ↔ one = partner numThreads piece other := by
  rw [partner]
  constructor
  · intro same
    rcases Nat.lt_or_ge (one + other) numThreads with below | above
    · rw [Nat.mod_eq_of_lt below] at same
      rw [show piece + numThreads - other = one + numThreads by omega, Nat.add_mod_right,
        Nat.mod_eq_of_lt oneBound]
    · rw [Nat.mod_eq_sub_mod above, Nat.mod_eq_of_lt (by omega)] at same
      rw [show piece + numThreads - other = one by omega, Nat.mod_eq_of_lt oneBound]
  · intro same
    rcases Nat.lt_or_ge piece other with wraps | inside
    · rw [Nat.mod_eq_of_lt (by omega)] at same
      rw [show one + other = piece + numThreads by omega, Nat.add_mod_right,
        Nat.mod_eq_of_lt pieceBound]
    · rw [Nat.mod_eq_sub_mod (by omega), Nat.mod_eq_of_lt (by omega)] at same
      rw [show one + other = piece by omega, Nat.mod_eq_of_lt pieceBound]

end

/-- The elements that a thread writes in each iteration: the threads of an iteration
write different elements, and a thread gets to each element once. -/
structure Pieces (size numThreads : Nat) (cells : Nat → Nat → List (Fin size)) : Prop where
  computed : ∀ j < numThreads, ∀ threadNum < numThreads,
    elements size (elementCount size numThreads) numThreads j threadNum = some (cells j threadNum)
  nodup : ∀ j < numThreads, ∀ threadNum < numThreads, (cells j threadNum).Nodup
  disjoint : ∀ j < numThreads, ∀ first < numThreads, ∀ second < numThreads, first ≠ second →
    List.Disjoint (cells j first) (cells j second)
  once : ∀ threadNum < numThreads, ∀ i, ∃! j, j < numThreads ∧ i ∈ cells j threadNum
  written : ∀ j < numThreads, ∀ i, ∃ threadNum < numThreads, i ∈ cells j threadNum

theorem pieces_of_fits (someThreads : 0 < numThreads)
    (someElements : 0 < size) (fits : Fits size numThreads) :
    Pieces size numThreads fun j threadNum => elementsFrom size (share size numThreads)
      (share size numThreads * ((j + threadNum) % numThreads)) := by
  have pieceBound : ∀ i : Fin size, i.val / share size numThreads < numThreads := by
    intro i
    rw [Nat.div_lt_iff_lt_mul (share_pos someThreads someElements), Nat.mul_comm]
    exact Nat.lt_of_lt_of_le i.isLt (le_share_mul someThreads)
  refine ⟨fun j iterationBound threadNum threadBound =>
    elements_of_fits someThreads someElements fits iterationBound threadBound,
    fun _ _ _ _ => elementsFrom_nodup _ _ _, ?_, ?_, ?_⟩
  · intro j iterationBound first firstBound second secondBound apart i inFirst inSecond
    rw [mem_piece someThreads someElements, eq_comm, Nat.add_comm,
      partner_eq_iff (pieceBound i) iterationBound firstBound] at inFirst
    rw [mem_piece someThreads someElements, eq_comm, Nat.add_comm,
      partner_eq_iff (pieceBound i) iterationBound secondBound] at inSecond
    exact apart (inFirst.trans inSecond.symm)
  · intro threadNum threadBound i
    refine ⟨partner numThreads (i.val / share size numThreads) threadNum,
      ⟨partner_lt (pieceBound i), ?_⟩, fun j holds => ?_⟩
    · rw [mem_piece someThreads someElements, eq_comm]
      exact (partner_eq_iff (pieceBound i) threadBound (partner_lt (pieceBound i))).mpr rfl
    · have member := holds.2
      rw [mem_piece someThreads someElements, eq_comm] at member
      exact (partner_eq_iff (pieceBound i) threadBound holds.1).mp member
  · intro j iterationBound i
    refine ⟨partner numThreads (i.val / share size numThreads) j, partner_lt (pieceBound i), ?_⟩
    rw [mem_piece someThreads someElements, eq_comm, Nat.add_comm]
    exact (partner_eq_iff (pieceBound i) iterationBound (partner_lt (pieceBound i))).mpr rfl

theorem int?_eq_some {value result : Int} (computed : int? value = some result) :
    value < 2 ^ 31 ∧ value = result := by
  rw [int?] at computed
  split at computed
  · rename_i inside
    exact ⟨inside.2, Option.some.inj computed⟩
  · cases computed

variable {size numThreads j threadNum : Nat}

theorem elements_eq_some {n : Int} {cells : List (Fin size)}
    (computed : elements size n numThreads j threadNum = some cells) :
    n * ((j : Int) + threadNum) < 2 ^ 31 ∧ n * numThreads < 2 ^ 31 ∧
      cells = elementsFrom size n.toNat ((n * ((j : Int) + threadNum)).tmod (n * numThreads)).toNat := by
  rw [elements] at computed
  simp only [bind_eq_bind] at computed
  obtain ⟨sum, sumIs, computed⟩ := bind_eq_some_iff.mp computed
  obtain ⟨product, productIs, computed⟩ := bind_eq_some_iff.mp computed
  obtain ⟨whole, wholeIs, computed⟩ := bind_eq_some_iff.mp computed
  obtain ⟨-, rfl⟩ := int?_eq_some sumIs
  obtain ⟨productFits, rfl⟩ := int?_eq_some productIs
  obtain ⟨wholeFits, rfl⟩ := int?_eq_some wholeIs
  split at computed
  · cases computed
  · exact ⟨productFits, wholeFits, (Option.some.inj computed).symm⟩

theorem elements_bound (threadBound : j + threadNum < numThreads) {n : Int} {cells : List (Fin size)}
    (computed : elements size n numThreads j threadNum = some cells) {i : Fin size}
    (member : i ∈ cells) : i.val < n.toNat * numThreads := by
  obtain ⟨-, -, rfl⟩ := elements_eq_some computed
  have inside := mem_elementsFrom.mp member
  obtain ⟨count, rfl⟩ : ∃ count : Nat, n = count := ⟨n.toNat, by omega⟩
  have productCast : (count : Int) * ((j : Int) + threadNum) = ((count * (j + threadNum) : Nat) : Int) := by
    rw [Int.natCast_mul, Int.natCast_add]
  have wholeCast : (count : Int) * numThreads = ((count * numThreads : Nat) : Int) :=
    (Int.natCast_mul _ _).symm
  rw [productCast, wholeCast, ← Int.ofNat_tmod, Int.toNat_natCast, Int.toNat_natCast,
    Nat.mul_mod_mul_left, Nat.mod_eq_of_lt threadBound] at inside
  rw [Int.toNat_natCast]
  calc i.val < count * (j + threadNum) + count := inside.2
    _ = count * (j + threadNum + 1) := (Nat.mul_succ _ _).symm
    _ ≤ count * numThreads := Nat.mul_le_mul_left _ threadBound

variable {cells : Nat → Nat → List (Fin size)}

theorem share_lt_of_pieces (someThreads : 0 < numThreads) (someElements : 0 < size)
    (pieces : Pieces size numThreads cells) : share size numThreads < 2 ^ 31 := by
  by_contra large
  obtain ⟨j, ⟨iterationBound, member⟩, -⟩ :=
    pieces.once 0 someThreads ⟨size - 1, Nat.sub_lt someElements Nat.one_pos⟩
  have reached := elements_bound (by omega) (pieces.computed j iterationBound 0 someThreads) member
  have narrowed : (elementCount size numThreads).toNat ≤ share size numThreads - 1 := by
    have bound : elementCount size numThreads < (((2 ^ 32 : Nat) : Int) + 1) / 2 :=
      Int.bmod_lt (by decide)
    generalize elementCount size numThreads = n at bound ⊢
    omega
  have last : size - 1 < size - 1 :=
    calc size - 1 < (elementCount size numThreads).toNat * numThreads := reached
      _ ≤ (share size numThreads - 1) * numThreads := Nat.mul_le_mul_right _ narrowed
      _ ≤ size - 1 := Nat.le_sub_one_of_lt (share_pred_mul_lt someThreads someElements)
  exact Nat.lt_irrefl _ last

theorem fits_of_pieces (someThreads : 0 < numThreads) (someElements : 0 < size)
    (pieces : Pieces size numThreads cells) : Fits size numThreads := by
  have computed := pieces.computed (numThreads - 1) (by omega) (numThreads - 1) (by omega)
  rw [elementCount_of_lt (share_lt_of_pieces someThreads someElements pieces)] at computed
  obtain ⟨productFits, wholeFits, -⟩ := elements_eq_some computed
  have productCast : (share size numThreads : Int) *
      (((numThreads - 1 : Nat) : Int) + (numThreads - 1 : Nat)) =
      ((share size numThreads * (2 * numThreads - 2) : Nat) : Int) := by
    have twice : numThreads - 1 + (numThreads - 1) = 2 * numThreads - 2 := by omega
    rw [← Int.natCast_add, ← Int.natCast_mul, twice]
  rw [productCast] at productFits
  rw [← Int.natCast_mul] at wholeFits
  rw [Fits, ← Nat.mul_max_mul_left]
  exact Nat.max_lt.mpr ⟨by exact_mod_cast wholeFits, by exact_mod_cast productFits⟩

section

variable {Metric : Type} [AddCommMonoid Metric] {size numThreads : Nat}
  {cells : Nat → Nat → List (Fin size)}

theorem getD_cells {j : Nat} (threadNum : Nat) : ((List.range numThreads).map (cells j)).getD threadNum [] =
      if threadNum < numThreads then cells j threadNum else [] := by
  by_cases bound : threadNum < numThreads
  · simp [bound]
  · simp [bound]

theorem Pieces.separate (pieces : Pieces size numThreads cells) {j : Nat}
    (iterationBound : j < numThreads) : ParallelAdd.Separate fun threadNum =>
      ((List.range numThreads).map (cells j)).getD threadNum [] := by
  refine ⟨fun threadNum => ?_, fun first second apart i inFirst inSecond => ?_⟩
  · rw [getD_cells]
    split
    · rename_i bound
      exact pieces.nodup j iterationBound threadNum bound
    · exact List.nodup_nil
  · rw [getD_cells] at inFirst inSecond
    split at inFirst
    · rename_i firstBound
      split at inSecond
      · rename_i secondBound
        exact pieces.disjoint j iterationBound first firstBound second secondBound apart inFirst inSecond
      · cases inSecond
    · cases inFirst

variable {local' : Nat → Fin size → Metric}

theorem iteration_adds (pieces : Pieces size numThreads cells) {j : Nat}
    (iterationBound : j < numThreads) {schedule : List Nat} {values next : Fin size → Metric}
    (ran : iteration numThreads ((List.range numThreads).map (cells j)) local' schedule values =
      some next) {threadNum : Nat} (threadBound : threadNum < numThreads) {i : Fin size}
    (member : i ∈ cells j threadNum) : next i = values i + local' threadNum i := by
  rw [iteration] at ran
  obtain ⟨config, reached, finish⟩ := bind_eq_some_iff.mp ran
  split at finish
  · rename_i finished
    obtain rfl := Option.some.inj finish
    have separate := pieces.separate iterationBound
    have allFinished : ParallelAdd.Finished config := by
      intro worker
      by_cases bound : worker < numThreads
      · exact finished worker bound
      · obtain ⟨done, progress⟩ := ParallelAdd.run_progress separate reached
        have none := progress.parts worker
        rw [getD_cells, if_neg bound] at none
        exact (List.append_eq_nil_iff.mp none.symm).2
    refine (ParallelAdd.run_finished separate reached allFinished).1 threadNum i ?_
    rw [getD_cells, if_pos threadBound]
    exact member
  · cases finish

theorem exists_iteration (numThreads : Nat) (pieces : List (List (Fin size)))
    (local' : Nat → Fin size → Metric) :
    ∃ schedule, ∀ values, ∃ next, iteration numThreads pieces local' schedule values = some next := by
  obtain ⟨schedule, reaches⟩ := ParallelAdd.exists_run_finished local'
    (fun threadNum => pieces.getD threadNum []) numThreads
  refine ⟨schedule, fun values => ?_⟩
  obtain ⟨final, ran, finished, -⟩ := reaches values
  refine ⟨final.memory, ?_⟩
  rw [iteration, ran, bind_eq_bind, bind_some, if_pos finished]
  rfl

def iterations (size numThreads : Nat) (local' : Nat → Fin size → Metric)
    (schedules : Nat → List Nat) (count : Nat) : Option (Fin size → Metric) :=
  (List.range count).foldlM (fun values j => do
    let n := elementCount size numThreads
    let cells ← (List.range numThreads).mapM (elements size n numThreads j)
    iteration numThreads cells local' (schedules j) values) fun _ => 0

theorem iterations_succ (pieces : Pieces size numThreads cells) (local' : Nat → Fin size → Metric)
    (schedules : Nat → List Nat) {count : Nat} (bound : count < numThreads) :
    iterations size numThreads local' schedules (count + 1) =
      (iterations size numThreads local' schedules count).bind
        (iteration numThreads ((List.range numThreads).map (cells count)) local' (schedules count)) := by
  have written : (List.range numThreads).mapM
      (elements size (elementCount size numThreads) numThreads count) =
      some ((List.range numThreads).map (cells count)) :=
    Fallible.mapM_eq_some fun threadNum member =>
      pieces.computed count bound threadNum (List.mem_range.mp member)
  rw [iterations, List.range_succ, List.foldlM_append]
  simp only [List.foldlM_cons, List.foldlM_nil, written]
  simp [iterations]

theorem exists_iterations (pieces : Pieces size numThreads cells)
    (local' : Nat → Fin size → Metric) : ∃ schedules, ∀ count ≤ numThreads,
      ∃ values, iterations size numThreads local' schedules count = some values := by
  choose schedules reaches using fun j =>
    exists_iteration numThreads ((List.range numThreads).map (cells j)) local'
  refine ⟨schedules, fun count => ?_⟩
  induction count with
  | zero => exact fun _ => ⟨_, rfl⟩
  | succ count ih =>
    intro bound
    obtain ⟨values, ran⟩ := ih (by omega)
    obtain ⟨next, stepped⟩ := reaches count values
    exact ⟨next, by rw [iterations_succ pieces local' schedules bound, ran, bind_some,
      stepped]⟩

variable {schedules : Nat → List Nat}

theorem iterations_sum (pieces : Pieces size numThreads cells) {writer : Nat → Nat} {i : Fin size}
    (writes : ∀ j < numThreads, writer j < numThreads ∧ i ∈ cells j (writer j)) {count : Nat} :
    count ≤ numThreads → ∀ {values}, iterations size numThreads local' schedules count = some values →
      values i = ∑ j ∈ Finset.range count, local' (writer j) i := by
  induction count with
  | zero =>
    intro _ values ran
    obtain rfl := Option.some.inj ran
    rfl
  | succ count ih =>
    intro bound values ran
    rw [iterations_succ pieces local' schedules bound] at ran
    obtain ⟨before, ranBefore, stepped⟩ := bind_eq_some_iff.mp ran
    obtain ⟨threadBound, member⟩ := writes count bound
    rw [Finset.sum_range_succ, ← ih (by omega) ranBefore]
    exact iteration_adds pieces bound stepped threadBound member

theorem reduction_sum (pieces : Pieces size numThreads cells) {values : Fin size → Metric}
    (ran : reduction numThreads local' schedules = some values) (i : Fin size) :
    values i = ∑ threadNum ∈ Finset.range numThreads, local' threadNum i := by
  have written : ∀ j, ∃ threadNum, j < numThreads → threadNum < numThreads ∧ i ∈ cells j threadNum := by
    intro j
    by_cases bound : j < numThreads
    · obtain ⟨threadNum, holds⟩ := pieces.written j bound i
      exact ⟨threadNum, fun _ => holds⟩
    · exact ⟨0, fun inside => absurd inside bound⟩
  choose writer writes using written
  rw [iterations_sum pieces writes (Nat.le_refl numThreads) ran]
  refine Finset.sum_nbij writer ?_ ?_ ?_ fun _ _ => rfl
  · intro j member
    exact Finset.mem_range.mpr (writes j (Finset.mem_range.mp member)).1
  · intro first firstMember second secondMember same
    have firstBound := Finset.mem_range.mp firstMember
    have secondBound := Finset.mem_range.mp secondMember
    have inSecond := (writes second secondBound).2
    rw [← same] at inSecond
    exact (pieces.once (writer first) (writes first firstBound).1 i).unique
      ⟨firstBound, (writes first firstBound).2⟩ ⟨secondBound, inSecond⟩
  · intro threadNum member
    have threadBound := Finset.mem_range.mp member
    obtain ⟨j, ⟨iterationBound, inside⟩, -⟩ := pieces.once threadNum threadBound i
    refine ⟨j, Finset.mem_coe.mpr (Finset.mem_range.mpr iterationBound), ?_⟩
    obtain ⟨writerBound, inWriter⟩ := writes j iterationBound
    by_contra apart
    exact pieces.disjoint j iterationBound _ writerBound threadNum threadBound apart inWriter inside

end

section

variable {Identifier Metric : Type} [AddCommMonoid Metric] {size : Nat}

def contribution (increments : List (Fin size × Metric)) (i : Fin size) : Metric :=
  ((increments.filter fun increment => increment.1 = i).map Prod.snd).sum

section

variable (increments : Identifier → List (Fin size × Metric))
include increments

theorem evaluate_eq (values : Fin size → Metric) (identifier : Identifier) (i : Fin size) :
    evaluate increments values identifier i = values i + contribution (increments identifier) i := by
  rw [evaluate]
  induction increments identifier generalizing values with
  | nil => simp [contribution]
  | cons increment rest ih =>
    rw [List.foldl_cons, ih]
    by_cases here : increment.1 = i
    · subst here
      simp [contribution, add_assoc]
    · rw [Function.update_of_ne (Ne.symm here)]
      simp [contribution, here]

theorem evaluateAll_eq (identifiers : List Identifier) (i : Fin size) : evaluateAll increments identifiers i =
      (identifiers.map fun identifier => contribution (increments identifier) i).sum := by
  have from_ : ∀ values : Fin size → Metric, identifiers.foldl (evaluate increments) values i =
      values i + (identifiers.map fun identifier =>
        contribution (increments identifier) i).sum := by
    induction identifiers with
    | nil => simp
    | cons identifier rest ih =>
      intro values
      rw [List.foldl_cons, ih, evaluate_eq, List.map_cons, List.sum_cons, add_assoc]
  rw [evaluateAll, from_, zero_add]

theorem sum_evaluateAll (assigned : Nat → List Identifier) (count : Nat) (i : Fin size) :
    ∑ threadNum ∈ Finset.range count, evaluateAll increments (assigned threadNum) i =
      (((List.range count).flatMap assigned).map fun identifier =>
        contribution (increments identifier) i).sum := by
  induction count with
  | zero => rfl
  | succ count ih =>
    rw [Finset.sum_range_succ, ih, evaluateAll_eq, List.range_succ, List.flatMap_append,
      List.map_append, List.sum_append, List.flatMap_singleton]

end

end

section

variable {Source Identifier Metric : Type} [DecidableEq Source] [AddCommMonoid Metric] [DecidableEq Metric]

def Dealt (work : Work Source Identifier Metric) (region : Region Identifier) : Prop :=
  ((List.range region.numThreads).flatMap region.assigned).Perm work.identifiers

omit [DecidableEq Source] [DecidableEq Metric] in
theorem regionValues_serial {work : Work Source Identifier Metric} {region : Region Identifier}
    {cells : Nat → Nat → List (Fin work.size)}
    (pieces : Pieces work.size region.numThreads cells) (dealt : Dealt work region)
    {values : Fin work.size → Metric} (ran : regionValues work region = some values) :
    values = evaluateAll work.increments work.identifiers := by
  funext i
  rw [reduction_sum pieces ran i, sum_evaluateAll, evaluateAll_eq]
  exact (dealt.map _).sum_eq

theorem parallel_serial (works : List (Work Source Identifier Metric × Region Identifier)) :
    ∀ {results final : Results Source Metric}, (∀ entry ∈ works, entry.1.size ≠ 0 → Dealt entry.1 entry.2 ∧
      ∃ cells, Pieces entry.1.size entry.2.numThreads cells) →
    parallel works results = some final → final = serial (works.map Prod.fst) results := by
  induction works with
  | nil =>
    intro results final _ ran
    exact (Option.some.inj ran).symm
  | cons entry rest ih =>
    intro results final sound ran
    have others := fun other member => sound other (List.mem_cons_of_mem entry member)
    rw [parallel, List.foldlM_cons] at ran
    rw [List.map_cons, serial, List.foldl_cons]
    by_cases empty : entry.1.size = 0
    · rw [if_pos empty] at ran ⊢
      exact ih others ran
    · obtain ⟨dealt, cells, pieces⟩ := sound entry (by simp) empty
      rw [if_neg empty] at ran ⊢
      obtain ⟨next, incorporated, remaining⟩ := bind_eq_some_iff.mp ran
      obtain ⟨values, ranRegion, same⟩ := bind_eq_some_iff.mp incorporated
      obtain rfl := Option.some.inj same
      rw [← regionValues_serial pieces dealt ranRegion]
      exact ih others remaining

end

/-- What the reduction is for: the pieces of an iteration do not overlap, every
element of every thread is added once, and the results are those of the serial path. -/
structure Reduces (size numThreads : Nat) : Prop where
  pieces : ∃ cells, Pieces size numThreads cells
  finishes : ∀ (Metric : Type) [AddCommMonoid Metric] (local' : Nat → Fin size → Metric),
    ∃ schedules values, reduction numThreads local' schedules = some values
  sums : ∀ (Metric : Type) [AddCommMonoid Metric] (local' : Nat → Fin size → Metric)
    (schedules : Nat → List Nat) (values : Fin size → Metric),
    reduction numThreads local' schedules = some values →
    ∀ i, values i = ∑ threadNum ∈ Finset.range numThreads, local' threadNum i
  agrees : ∀ (Source Identifier Metric : Type) [DecidableEq Source] [AddCommMonoid Metric]
    [DecidableEq Metric] (work : Work Source Identifier Metric) (region : Region Identifier)
    (results final : Results Source Metric), work.size = size → region.numThreads = numThreads →
    Dealt work region → parallel [(work, region)] results = some final →
    final = serial [work] results

theorem reduces_of_pieces (pieces : Pieces size numThreads cells) : Reduces size numThreads where
  pieces := ⟨cells, pieces⟩
  finishes Metric _ local' := by
    obtain ⟨schedules, reaches⟩ := exists_iterations pieces local'
    obtain ⟨values, ran⟩ := reaches numThreads (Nat.le_refl numThreads)
    exact ⟨schedules, values, ran⟩
  sums Metric _ local' schedules values ran := reduction_sum pieces ran
  agrees Source Identifier Metric _ _ _ work region results final sameSize sameThreads dealt ran := by
    subst sameSize sameThreads
    refine parallel_serial [(work, region)] (fun entry member _ => ?_) ran
    obtain rfl := List.mem_singleton.mp member
    exact ⟨dealt, cells, pieces⟩

end OpenSpeedShop.GetMetricValues
