import OpenSpeedShop.Framework.ExtentTable
import OpenSpeedShop.Library.ParallelAdd

/-!
Metric values of source objects: evaluated serially, or in a parallel region whose partial results are
reduced in iterations. A computation that leaves the range of `int` has no result.
-/

namespace OpenSpeedShop.GetMetricValues

section

variable {Identifier Metric : Type} [AddCommMonoid Metric] {size : Nat}

/-- Adds to the values what a performance data blob contributes to each extent:
`(*values)[*j] += ...`. -/
def evaluate (increments : Identifier → List (Fin size × Metric)) (values : Fin size → Metric)
    (identifier : Identifier) : Fin size → Metric :=
  (increments identifier).foldl (fun values increment =>
    Function.update values increment.1 (values increment.1 + increment.2)) values

def evaluateAll (increments : Identifier → List (Fin size × Metric))
    (identifiers : List Identifier) : Fin size → Metric :=
  identifiers.foldl (evaluate increments) fun _ => 0

end

def int? (value : Int) : Option Int :=
  if -2 ^ 31 ≤ value ∧ value < 2 ^ 31 then some value else none

def elementCount (size numThreads : Nat) : Int :=
  Int.bmod ((size + numThreads - 1) / numThreads : Nat) (2 ^ 32)

/-- `for(int k = 0; (k < n) && ((first + k) < values.size()); ++k)`, from the element
`first + k` with `n - k` rounds to go. -/
def elementsFrom (size : Nat) : (rounds element : Nat) → List (Fin size)
  | 0, _ => []
  | rounds + 1, element =>
    if inside : element < size then ⟨element, inside⟩ :: elementsFrom size rounds (element + 1)
    else []

def elements (size : Nat) (n : Int) (numThreads j threadNum : Nat) : Option (List (Fin size)) := do
  let sum ← int? (j + threadNum)
  let product ← int? (n * sum)
  let whole ← int? (n * numThreads)
  if whole = 0 then none
  else return elementsFrom size n.toNat (product.tmod whole).toNat

section

variable {Metric : Type} [AddCommMonoid Metric] {size : Nat}

/-- One iteration up to its barrier, with the loads and stores of the threads in the
order of a schedule. -/
def iteration (numThreads : Nat) (cells : List (List (Fin size)))
    (local' : Nat → Fin size → Metric) (schedule : List Nat) (values : Fin size → Metric) : Option (Fin size → Metric) := do
  let config ← Runs.run (ParallelAdd.step local')
    (ParallelAdd.start values fun threadNum => cells.getD threadNum []) schedule
  if ∀ threadNum < numThreads, (config.workers threadNum).pending = [] then return config.memory
  else none

def reduction (numThreads : Nat) (local' : Nat → Fin size → Metric) (schedules : Nat → List Nat) :
    Option (Fin size → Metric) :=
  (List.range numThreads).foldlM (fun values j => do
    let n := elementCount size numThreads
    let cells ← (List.range numThreads).mapM (elements size n numThreads j)
    iteration numThreads cells local' (schedules j) values) fun _ => 0

end

section

variable {Source Identifier Metric : Type} [DecidableEq Source] [AddCommMonoid Metric] [DecidableEq Metric]

/-- `std::map<TS, std::map<Thread, TM> >` -/
abbrev Results (Source Metric : Type) := Source → Option (Entry → Option Metric)

structure Work (Source Identifier Metric : Type) where
  thread : Entry
  size : Nat
  objects : Fin size → Source
  identifiers : List Identifier
  increments : Identifier → List (Fin size × Metric)

def Work.incorporate (work : Work Source Identifier Metric) (values : Fin work.size → Metric)
    (results : Results Source Metric) : Results Source Metric :=
  (List.finRange work.size).foldl (fun results j =>
    if values j ≠ 0 then
      let threads := (results (work.objects j)).getD fun _ => none
      Function.update results (work.objects j) (some (Function.update threads work.thread
        (some ((threads work.thread).getD 0 + values j))))
    else results) results

def serial (works : List (Work Source Identifier Metric)) (results : Results Source Metric) :
    Results Source Metric :=
  works.foldl (fun results work =>
    if work.size = 0 then results
    else work.incorporate (evaluateAll work.increments work.identifiers) results) results

/-- How a parallel region runs: its threads, the blobs that each of them takes, and
the interleaving of every iteration. -/
structure Region (Identifier : Type) where
  numThreads : Nat
  assigned : Nat → List Identifier
  schedules : Nat → List Nat

def regionValues (work : Work Source Identifier Metric) (region : Region Identifier) :
    Option (Fin work.size → Metric) :=
  reduction region.numThreads
    (fun threadNum => evaluateAll work.increments (region.assigned threadNum)) region.schedules

def parallel (works : List (Work Source Identifier Metric × Region Identifier))
    (results : Results Source Metric) : Option (Results Source Metric) :=
  works.foldlM (fun results entry =>
    if entry.1.size = 0 then return results
    else do
      let values ← regionValues entry.1 entry.2
      return entry.1.incorporate values results) results

end

end OpenSpeedShop.GetMetricValues
