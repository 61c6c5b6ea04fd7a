import OpenSpeedShop.Framework.ExtentTable
import Mathlib.Data.Finset.Sort
import Mathlib.Data.Prod.Lex

/-!
Agglomerative clustering of the threads that have individual results. Distances are of any type with the
operators that the templates use; a failed assertion gives no result.
-/

namespace OpenSpeedShop

def Entry.less (self other : Entry) : Bool :=
  if self.dmDatabase = other.dmDatabase then self.dmEntry < other.dmEntry
  else self.dmDatabase < other.dmDatabase

def Entry.lexicographic (entry : Entry) : DatabasePtr ×ₗ Int :=
  toLex (entry.dmDatabase, entry.dmEntry)

theorem Entry.less_iff {first second : Entry} :
    first.less second = true ↔ first.lexicographic < second.lexicographic := by
  rw [less, lexicographic, lexicographic, Prod.Lex.toLex_lt_toLex]
  split
  · rename_i same
    simp [same]
  · rename_i apart
    simp [apart]

theorem Entry.less_eq_false {first second : Entry} :
    second.less first = false ↔ first.lexicographic ≤ second.lexicographic := by
  rw [← Bool.not_eq_true, Entry.less_iff, not_lt]

instance Entry.instLinearOrder : LinearOrder Entry where
  lt first second := first.less second = true
  le first second := second.less first = false
  lt_iff_le_not_ge first second := by
    rw [Entry.less_iff, Entry.less_eq_false, Entry.less_eq_false, lt_iff_le_not_ge]
  le_refl entry := Entry.less_eq_false.mpr le_rfl
  le_trans first second third below above :=
    Entry.less_eq_false.mpr ((Entry.less_eq_false.mp below).trans (Entry.less_eq_false.mp above))
  le_antisymm first second below above := by
    have same := le_antisymm (Entry.less_eq_false.mp below) (Entry.less_eq_false.mp above)
    obtain ⟨database, number⟩ := Prod.mk.inj (toLex.injective same)
    cases first
    cases second
    exact congrArg₂ Entry.mk database number
  le_total first second := by
    rw [Entry.less_eq_false, Entry.less_eq_false]
    exact le_total _ _
  toDecidableLE := fun first second => inferInstanceAs (Decidable (second.less first = false))
  toDecidableLT := fun first second => inferInstanceAs (Decidable (first.less second = true))
  toDecidableEq := inferInstance

abbrev ThreadSet := Finset Entry

namespace ThreadSet

def AtMost (first second : ThreadSet) : Prop := first.sort ≤ second.sort

instance : DecidableRel AtMost := fun first second =>
  inferInstanceAs (Decidable (first.sort ≤ second.sort))

instance : IsTrans ThreadSet AtMost := ⟨fun _ _ _ below above => le_trans below above⟩

instance : Std.Total AtMost := ⟨fun first second =>
  le_total (first.sort (· ≤ ·)) (second.sort (· ≤ ·))⟩

instance : Std.Antisymm AtMost := ⟨fun first second below above => by
  have same := congrArg List.toFinset (le_antisymm below above)
  rwa [Finset.sort_toFinset, Finset.sort_toFinset] at same⟩

end ThreadSet

/-- The order in which a `std::set<ThreadGroup>` is iterated over. -/
def inOrder (clusters : Finset ThreadSet) : List ThreadSet := clusters.sort ThreadSet.AtMost

/-- Every element paired with those after it: `j = i; ++j; while(j != end())`. -/
def pairings {Item : Type} : List Item → List (Item × Item)
  | [] => []
  | i :: rest => rest.map (fun j => (i, j)) ++ pairings rest

/-- `std::map<TS, std::map<Thread, TM> >` -/
abbrev Individual (Source Metric : Type) := List (Source × List (Entry × Metric))

namespace ClusterAnalysis

variable {Source Metric : Type}

structure DistanceMatrix (Metric : Type) where
  dmThreads : ThreadSet
  dmTable : List ((Entry × Entry) × Metric)

namespace DistanceMatrix

def key (first second : Entry) : Entry × Entry :=
  if first < second then (first, second) else (second, first)

def insert (table : List ((Entry × Entry) × Metric)) (entry : (Entry × Entry) × Metric) :
    List ((Entry × Entry) × Metric) :=
  if (table.lookup entry.1).isSome then table else table ++ [entry]

def new (individual : Individual Source Metric)
    (distance : Individual Source Metric → Entry → Entry → Metric) : DistanceMatrix Metric :=
  let threads := (individual.flatMap fun entry => entry.2.map Prod.fst).toFinset
  { dmThreads := threads
    dmTable := (pairings threads.sort).foldl (fun table pair =>
      insert table (key pair.1 pair.2, distance individual pair.1 pair.2)) [] }

def getDistance [Zero Metric] (self : DistanceMatrix Metric) (first second : Entry) : Option Metric :=
  if first = second then some 0 else self.dmTable.lookup (key first second)

end DistanceMatrix

/-- A cluster distance measure. It may only rely on the distances between the
threads of two clusters, neither of them empty. -/
structure ClusterDistance (Metric : Type) [Zero Metric] where
  measure : DistanceMatrix Metric → ThreadSet → ThreadSet → Option Metric
  answers : ∀ (distances : DistanceMatrix Metric) (first second : ThreadSet), first.Nonempty →
    second.Nonempty →
    (∀ i ∈ first, ∀ j ∈ second, (distances.getDistance i j).isSome) →
    (measure distances first second).isSome

/-- A termination criterion. It may only rely on the distances between the threads
of each cluster. -/
structure Criterion (Metric : Type) [Zero Metric] where
  holds : DistanceMatrix Metric → Finset ThreadSet → Metric → ThreadSet → ThreadSet → Option Bool
  answers : ∀ (distances : DistanceMatrix Metric) (clusters : Finset ThreadSet)
    (distance : Metric) (first second : ThreadSet), first.Nonempty → second.Nonempty →
    (∀ i ∈ first, ∀ j ∈ first, (distances.getDistance i j).isSome) →
    (∀ i ∈ second, ∀ j ∈ second, (distances.getDistance i j).isSome) →
    (holds distances clusters distance first second).isSome

def overDistances [Zero Metric] {Value : Type} (distances : DistanceMatrix Metric)
    (first second : ThreadSet) (update : Value → Metric → Value) (start : Value) : Option Value :=
  (first.sort ×ˢ second.sort).foldlM (fun value pair => do
    return update value (← distances.getDistance pair.1 pair.2)) start

def replaceIf (replaces : Metric → Metric → Bool) (value : Option Metric) (d : Metric) : Option Metric :=
  match value with
  | none => some d
  | some value => some (if replaces d value then d else value)

def linkage [Zero Metric] (replaces : Metric → Metric → Bool) (distances : DistanceMatrix Metric)
    (first second : ThreadSet) : Option Metric :=
  if first.Nonempty ∧ second.Nonempty then do
    let value ← overDistances distances first second (replaceIf replaces) none
    return value.getD 0
  else none

def completeLinkageDistance [Zero Metric] [LT Metric] [DecidableLT Metric] :
    DistanceMatrix Metric → ThreadSet → ThreadSet → Option Metric :=
  linkage fun d value => d > value

def singleLinkageDistance [Zero Metric] [LT Metric] [DecidableLT Metric] :
    DistanceMatrix Metric → ThreadSet → ThreadSet → Option Metric :=
  linkage fun d value => d < value

def averageLinkageDistance [Zero Metric] [Add Metric] [Div Metric] [NatCast Metric]
    (distances : DistanceMatrix Metric) (first second : ThreadSet) : Option Metric :=
  if first.Nonempty ∧ second.Nonempty then do
    let value ← overDistances distances first second (· + ·) 0
    return value / ((first.card * second.card : Nat) : Metric)
  else none

def numberCriterion1 [Zero Metric] (dmCount : Nat) : Criterion Metric where
  holds _ clusters _ _ _ := some (dmCount ≥ clusters.card)
  answers _ _ _ _ _ _ _ _ _ := rfl

section

variable [Zero Metric] [LT Metric] [DecidableLT Metric]

abbrev Minimum (Metric : Type) := Option (Metric × ThreadSet × ThreadSet)

def replaceMinimum (distances : DistanceMatrix Metric) (cdistance : ClusterDistance Metric)
    (minimum : Minimum Metric) (pair : ThreadSet × ThreadSet) : Option (Minimum Metric) := do
  let d ← cdistance.measure distances pair.1 pair.2
  match minimum with
  | none => return some (d, pair)
  | some (distance, _) => return if d < distance then some (d, pair) else minimum

def findMinimum (distances : DistanceMatrix Metric) (cdistance : ClusterDistance Metric)
    (clusters : Finset ThreadSet) : Option (Minimum Metric) :=
  (pairings (inOrder clusters)).foldlM (replaceMinimum distances cdistance) none

def union (clusters : Finset ThreadSet) (first second : ThreadSet) : Finset ThreadSet :=
  insert (first ∪ second) ((clusters.erase first).erase second)

def iterate (distances : DistanceMatrix Metric) (cdistance : ClusterDistance Metric)
    (criterion : Criterion Metric) (clusters : Finset ThreadSet) :
    Option (Bool × Finset ThreadSet) := do
  match ← findMinimum distances cdistance clusters with
  | none => none
  | some (distance, first, second) => do
      let terminates ← criterion.holds distances clusters distance first second
      if terminates && clusters.card < 5 then return (false, clusters)
      else return (true, union clusters first second)

def loop (distances : DistanceMatrix Metric) (cdistance : ClusterDistance Metric)
    (criterion : Criterion Metric) : (fuel : Nat) → Finset ThreadSet → Option (Finset ThreadSet)
  | 0, _ => none
  | fuel + 1, clusters =>
    if clusters.card > 1 then do
      let (goesOn, clusters) ← iterate distances cdistance criterion clusters
      if goesOn then loop distances cdistance criterion fuel clusters else return clusters
    else return clusters

def apply (individual : Individual Source Metric)
    (idistance : Individual Source Metric → Entry → Entry → Metric)
    (cdistance : ClusterDistance Metric) (criterion : Criterion Metric) (fuel : Nat) :
    Option (Finset ThreadSet) :=
  let distances := DistanceMatrix.new individual idistance
  loop distances cdistance criterion fuel (distances.dmThreads.image fun thread => {thread})

end

end ClusterAnalysis

end OpenSpeedShop
