import OpenSpeedShop.Framework.ExtentTable
import OpenSpeedShop.Framework.RangeMaps
import OpenSpeedShop.Library.Runs

/-!
The metrics of the CUDA collector, which loads a thread's performance data when it first sees it, and
computes all values of a metric in the first of several calls.
-/

namespace OpenSpeedShop

namespace Cuda

structure Event (Info : Type) where
  info : Info
  frames : List Address
  time : Time
  timeBegin : Time
  timeEnd : Time

structure CountsDetail where
  time : Time
  counts : List UInt64
deriving DecidableEq

structure PerformanceData (Data Message Name Kernel Transfer : Type) where
  empty : Data
  apply : Data → Name → Message → Data
  counters : Data → List String
  kernelExecutions : Data → Name → TimeInterval → List (Event Kernel)
  dataTransfers : Data → Name → TimeInterval → List (Event Transfer)
  periodicSamples : Data → Name → TimeInterval → List CountsDetail

structure Experiment (Message Name Double : Type) where
  /-- The blobs of a collector and a thread. -/
  messages : Entry → Entry → List Message
  /-- Host, process, thread and rank. -/
  name : Entry → Name
  /-- The frames of a call site between `main` and the CUDA implementation. -/
  trim : List Address → Entry → Time → List Address
  seconds : UInt64 → Double

inductive Metric
  | countCounters
  | countExclusiveDetails
  | execTime
  | execInclusiveDetails
  | execExclusiveDetails
  | xferTime
  | xferInclusiveDetails
  | xferExclusiveDetails
deriving DecidableEq

structure Call where
  metric : Metric
  collector : Entry
  thread : Entry
  subextents : List Extent
deriving DecidableEq

abbrev Details (Info Double : Type) := List (List Address × List (Info × Double))

inductive Values (Kernel Transfer Double : Type)
  | counters (values : List (List String))
  | counts (values : List (List CountsDetail))
  | time (values : List Double)
  | execDetails (values : List (Details Kernel Double))
  | xferDetails (values : List (Details Transfer Double))
deriving DecidableEq

namespace Values

variable {Kernel Transfer Double : Type}

def counters? : Values Kernel Transfer Double → Option (List (List String))
  | .counters values => some values
  | .counts _ | .time _ | .execDetails _ | .xferDetails _ => none

def counts? : Values Kernel Transfer Double → Option (List (List CountsDetail))
  | .counts values => some values
  | .counters _ | .time _ | .execDetails _ | .xferDetails _ => none

def time? : Values Kernel Transfer Double → Option (List Double)
  | .time values => some values
  | .counters _ | .counts _ | .execDetails _ | .xferDetails _ => none

def execDetails? : Values Kernel Transfer Double → Option (List (Details Kernel Double))
  | .execDetails values => some values
  | .counters _ | .counts _ | .time _ | .xferDetails _ => none

def xferDetails? : Values Kernel Transfer Double → Option (List (Details Transfer Double))
  | .xferDetails values => some values
  | .counters _ | .counts _ | .time _ | .execDetails _ => none

end Values

section

variable {Message Name Double Info : Type} [Add Double] (experiment : Experiment Message Name Double)
  (thread : Entry) (subextents : List Extent)

def getIntersectionWith (extent : Extent) : List Nat :=
  (List.range subextents.length).filter fun index =>
    (subextents.getD index default).doesIntersect extent

/-- `(interval & subextents[*j].getTimeInterval()).getWidth()` in seconds -/
def timeOf (interval : TimeInterval) (index : Nat) : Double :=
  experiment.seconds ((interval.inter (subextents.getD index default).dmInterval).getWidth)

def computeTime (results : List Double) (event : Event Info) : Option (List Double) := do
  let interval ← Interval.make? event.timeBegin (event.timeEnd + 1)
  let first ← (experiment.trim event.frames thread event.time)[0]?
  let intersection := getIntersectionWith subextents ⟨interval, AddressRange.ofValue first⟩
  return intersection.foldl (fun results i =>
    results.modify i (· + timeOf experiment subextents interval i)) results

def traceLess (lhs rhs : List Address) : Bool := lhs.lex rhs

def computeDetails (inclusive : Bool) (results : List (Details Info Double)) (event : Event Info) :
    Option (List (Details Info Double)) := do
  let interval ← Interval.make? event.timeBegin (event.timeEnd + 1)
  let trace := experiment.trim event.frames thread event.time
  return (if inclusive then trace else trace.take 1).foldl (fun results i =>
    (getIntersectionWith subextents ⟨interval, AddressRange.ofValue i⟩).foldl (fun results j =>
      results.modify j (OrderedMap.upsert traceLess trace []
        (· ++ [(event.info, timeOf experiment subextents interval j)]))) results) results

end

section

variable {Data Message Name Kernel Transfer Double : Type} [Add Double] [Zero Double]
  (data : PerformanceData Data Message Name Kernel Transfer)
  (experiment : Experiment Message Name Double)

def toArgoNavis (interval : TimeInterval) : TimeInterval := ⟨interval.dmBegin, interval.dmEnd - 1⟩

def getCUDAPerformanceData (dmData : Data) (collector thread : Entry) : Data :=
  (experiment.messages collector thread).foldl
    (fun dmData message => data.apply dmData (experiment.name thread) message) dmData

def compute (dmData : Data) (call : Call) (values : Values Kernel Transfer Double) :
    Option (Values Kernel Transfer Double) :=
  let name := experiment.name call.thread
  let bounds := toArgoNavis (call.subextents.foldl Extent.union default).dmInterval
  let kernels := data.kernelExecutions dmData name bounds
  let transfers := data.dataTransfers dmData name bounds
  match call.metric with
  | .countCounters => do
      let results ← values.counters?
      return .counters ((List.range call.subextents.length).foldl
        (fun results i => results.set i (data.counters dmData)) results)
  | .countExclusiveDetails => do
      let results ← values.counts?
      return .counts ((List.range call.subextents.length).foldl (fun results i =>
        results.modify i (· ++ data.periodicSamples dmData name
          (toArgoNavis (call.subextents.getD i default).dmInterval))) results)
  | .execTime => do
      let results ← values.time?
      let results ← kernels.foldlM (computeTime experiment call.thread call.subextents) results
      return .time results
  | .execInclusiveDetails => do
      let results ← values.execDetails?
      let results ← kernels.foldlM (computeDetails experiment call.thread call.subextents true) results
      return .execDetails results
  | .execExclusiveDetails => do
      let results ← values.execDetails?
      let results ← kernels.foldlM (computeDetails experiment call.thread call.subextents false) results
      return .execDetails results
  | .xferTime => do
      let results ← values.time?
      let results ← transfers.foldlM (computeTime experiment call.thread call.subextents) results
      return .time results
  | .xferInclusiveDetails => do
      let results ← values.xferDetails?
      let results ← transfers.foldlM (computeDetails experiment call.thread call.subextents true) results
      return .xferDetails results
  | .xferExclusiveDetails => do
      let results ← values.xferDetails?
      let results ← transfers.foldlM (computeDetails experiment call.thread call.subextents false) results
      return .xferDetails results

def zero (metric : Metric) (size : Nat) : Values Kernel Transfer Double :=
  match metric with
  | .countCounters => .counters (List.replicate size [])
  | .countExclusiveDetails => .counts (List.replicate size [])
  | .execTime | .xferTime => .time (List.replicate size 0)
  | .execInclusiveDetails | .execExclusiveDetails => .execDetails (List.replicate size [])
  | .xferInclusiveDetails | .xferExclusiveDetails => .xferDetails (List.replicate size [])

structure State (Data : Type) where
  dmCurrent : Option (Entry × List Extent)
  dmData : Data
  dmThreads : List Entry

def initial : State Data := ⟨none, data.empty, []⟩

def State.see (self : State Data) (call : Call) : State Data :=
  if call.thread ∈ self.dmThreads then self
  else { self with
    dmThreads := call.thread :: self.dmThreads
    dmData := getCUDAPerformanceData data experiment self.dmData call.collector call.thread }

def getMetricValues (self : State Data) (call : Call) (values : Values Kernel Transfer Double) :
    Option (Values Kernel Transfer Double × State Data) :=
  if self.dmCurrent = some (call.thread, call.subextents) then some (values, self)
  else do
    let self := { self.see data experiment call with dmCurrent := some (call.thread, call.subextents) }
    let values ← compute data experiment self.dmData call values
    return (values, self)

def step (self : State Data) (input : Call × Values Kernel Transfer Double) : Option (State Data) :=
  (getMetricValues data experiment self input.1 input.2).map Prod.snd

def output (self : State Data) (call : Call) : Option (Values Kernel Transfer Double) :=
  (getMetricValues data experiment self call (zero call.metric call.subextents.length)).map Prod.fst

end

end Cuda

/-!
What a metric query of the CUDA collector returns after other queries: its values, unless
the query before it was for the same thread and subextents.
-/

namespace Cuda

variable {Data Message Name Kernel Transfer Double : Type}

section

variable (data : PerformanceData Data Message Name Kernel Transfer)

def SameEvents (name : Name) (first second : Data) : Prop :=
  ∀ interval, data.kernelExecutions first name interval = data.kernelExecutions second name interval ∧
    data.dataTransfers first name interval = data.dataTransfers second name interval

structure Separate : Prop where
  other : ∀ dmData name own message, name ≠ own → SameEvents data name (data.apply dmData own message) dmData
  own : ∀ first second name message, SameEvents data name first second →
    SameEvents data name (data.apply first name message) (data.apply second name message)

end

section

variable {data : PerformanceData Data Message Name Kernel Transfer}
  {experiment : Experiment Message Name Double} {state next : State Data}
  {seen : List (Call × Values Kernel Transfer Double)} {call : Call}

theorem SameEvents.trans {name : Name} {first second third : Data}
    (one : SameEvents data name first second) (two : SameEvents data name second third) :
    SameEvents data name first third :=
  fun interval => ⟨(one interval).1.trans (two interval).1, (one interval).2.trans (two interval).2⟩

theorem SameEvents.refl (name : Name) (dmData : Data) : SameEvents data name dmData dmData :=
  fun _ => ⟨rfl, rfl⟩

variable {collector thread : Entry}

theorem Separate.load_other (separate : Separate data) {name : Name}
    (apart : name ≠ experiment.name thread) (dmData : Data) :
    SameEvents data name (getCUDAPerformanceData data experiment dmData collector thread) dmData := by
  unfold getCUDAPerformanceData
  generalize experiment.messages collector thread = messages
  induction messages generalizing dmData with
  | nil => exact .refl name dmData
  | cons message rest ih => exact (ih _).trans (separate.other dmData name _ message apart)

theorem Separate.load_own (separate : Separate data) {first second : Data}
    (same : SameEvents data (experiment.name thread) first second) : SameEvents data (experiment.name thread)
      (getCUDAPerformanceData data experiment first collector thread)
      (getCUDAPerformanceData data experiment second collector thread) := by
  unfold getCUDAPerformanceData
  generalize experiment.messages collector thread = messages
  induction messages generalizing first second with
  | nil => exact same
  | cons message rest ih => exact ih (separate.own _ _ _ message same)

def Metric.counts : Metric → Bool
  | .countCounters => true
  | .countExclusiveDetails => true
  | .execTime => false
  | .execInclusiveDetails => false
  | .execExclusiveDetails => false
  | .xferTime => false
  | .xferInclusiveDetails => false
  | .xferExclusiveDetails => false

def Repeats (seen : List (Call × Values Kernel Transfer Double)) (call : Call) : Prop :=
  ∃ last, seen.getLast? = some last ∧ last.1.thread = call.thread ∧ last.1.subextents = call.subextents

/-- The thread was only asked about through the same collector, no other thread has its
name, and for hardware counters no other thread was asked about. -/
structure OwnData (experiment : Experiment Message Name Double)
    (seen : List (Call × Values Kernel Transfer Double)) (call : Call) : Prop where
  collector : ∀ input ∈ seen, input.1.thread = call.thread → input.1.collector = call.collector
  names : ∀ input ∈ seen, experiment.name input.1.thread = experiment.name call.thread →
    input.1.thread = call.thread
  counters : call.metric.counts = true → ∀ input ∈ seen, input.1.thread = call.thread

variable {input : Call × Values Kernel Transfer Double}

theorem OwnData.init (own : OwnData experiment (seen ++ [input]) call) : OwnData experiment seen call where
  collector other member := own.collector other (List.mem_append_left _ member)
  names other member := own.names other (List.mem_append_left _ member)
  counters counts other member := own.counters counts other (List.mem_append_left _ member)

def Asked (seen : List (Call × Values Kernel Transfer Double)) (thread : Entry) : Prop :=
  ∃ input ∈ seen, input.1.thread = thread

theorem asked_snoc {thread : Entry} :
    Asked (seen ++ [input]) thread ↔ Asked seen thread ∨ input.1.thread = thread := by
  simp [Asked, or_and_right, exists_or]

def Same (data : PerformanceData Data Message Name Kernel Transfer)
    (experiment : Experiment Message Name Double) (call : Call) (first second : Data) : Prop :=
  (call.metric.counts = false → SameEvents data (experiment.name call.thread) first second) ∧
    (call.metric.counts = true → first = second)

/-- What the collector remembers of a history: for a call with its own data, the data
of its thread once that was asked about, and nothing before. -/
structure Remembers (data : PerformanceData Data Message Name Kernel Transfer)
    (experiment : Experiment Message Name Double)
    (seen : List (Call × Values Kernel Transfer Double)) (state : State Data) : Prop where
  current : state.dmCurrent = seen.getLast?.map fun input => (input.1.thread, input.1.subextents)
  threads : ∀ thread, thread ∈ state.dmThreads ↔ Asked seen thread
  loaded : ∀ call, OwnData experiment seen call →
    (Asked seen call.thread → Same data experiment call state.dmData
      (getCUDAPerformanceData data experiment data.empty call.collector call.thread)) ∧
    (¬ Asked seen call.thread → Same data experiment call state.dmData data.empty)

theorem remembers_initial :
    Remembers data experiment ([] : List (Call × Values Kernel Transfer Double)) (initial data) where
  current := rfl
  threads thread := by simp [initial, Asked]
  loaded call _ := ⟨by simp [Asked], fun _ => ⟨fun _ => .refl _ _, fun _ => rfl⟩⟩

theorem Remembers.see (separate : Separate data) (remembers : Remembers data experiment seen state)
    (own : OwnData experiment (seen ++ [input]) call) : (Asked (seen ++ [input]) call.thread →
      Same data experiment call (state.see data experiment input.1).dmData
        (getCUDAPerformanceData data experiment data.empty call.collector call.thread)) ∧
    (¬ Asked (seen ++ [input]) call.thread →
      Same data experiment call (state.see data experiment input.1).dmData data.empty) := by
  obtain ⟨asked, new⟩ := remembers.loaded call own.init
  by_cases isThread : input.1.thread = call.thread
  · have collector := own.collector input (by simp) isThread
    refine ⟨fun _ => ?_, fun never => absurd (asked_snoc.mpr (.inr isThread)) never⟩
    unfold State.see
    split
    next known =>
      rw [remembers.threads, isThread] at known
      exact asked known
    next unknown =>
      rw [remembers.threads, isThread] at unknown
      obtain ⟨requests, counters⟩ := new unknown
      rw [isThread, collector]
      exact ⟨fun kind => separate.load_own (requests kind), fun kind => by
        simp only [counters kind]⟩
  · have apart : experiment.name call.thread ≠ experiment.name input.1.thread :=
      fun same => isThread (own.names input (by simp) same.symm)
    have kind : call.metric.counts = false :=
      Bool.eq_false_iff.mpr fun counts => isThread (own.counters counts input (by simp))
    have kept : SameEvents data (experiment.name call.thread)
        (state.see data experiment input.1).dmData state.dmData := by
      unfold State.see
      split
      next => exact .refl _ _
      next => exact separate.load_other apart state.dmData
    have grows : ∀ other, Same data experiment call state.dmData other →
        Same data experiment call (state.see data experiment input.1).dmData other :=
      fun other same => ⟨fun _ => kept.trans (same.1 kind), fun counts => by simp [kind] at counts⟩
    rw [asked_snoc, or_iff_left isThread]
    exact ⟨fun before => grows _ (asked before), fun never => grows _ (new never)⟩

theorem mem_see {thread : Entry} : thread ∈ (state.see data experiment call).dmThreads ↔
    thread ∈ state.dmThreads ∨ call.thread = thread := by
  unfold State.see
  split
  next known =>
    refine ⟨.inl, ?_⟩
    rintro (present | rfl)
    · exact present
    · exact known
  next => simp [or_comm, eq_comm]

theorem Remembers.repeats_iff (remembers : Remembers data experiment seen state) :
    state.dmCurrent = some (call.thread, call.subextents) ↔ Repeats seen call := by
  rw [remembers.current, Option.map_eq_some_iff, Repeats]
  simp only [Prod.mk.injEq]

variable [Add Double]

theorem compute_congr {first second : Data} (values : Values Kernel Transfer Double)
    (requests : call.metric.counts = false → SameEvents data (experiment.name call.thread) first second)
    (counters : call.metric.counts = true → first = second) :
    compute data experiment first call values = compute data experiment second call values := by
  cases metric : call.metric.counts with
  | true => rw [counters metric]
  | false =>
    have same := requests metric (toArgoNavis (call.subextents.foldl Extent.union default).dmInterval)
    unfold compute
    simp only [same.1, same.2]
    cases kind : call.metric <;> simp only [kind, Metric.counts] at metric ⊢ <;> cases metric

theorem getMetricValues_repeated (same : state.dmCurrent = some (call.thread, call.subextents))
    (values : Values Kernel Transfer Double) :
    getMetricValues data experiment state call values = some (values, state) := by
  rw [getMetricValues, if_pos same]

theorem getMetricValues_new (other : state.dmCurrent ≠ some (call.thread, call.subextents))
    (values : Values Kernel Transfer Double) : getMetricValues data experiment state call values =
      (compute data experiment (state.see data experiment call).dmData call values).map fun values =>
        (values, { state.see data experiment call with
          dmCurrent := some (call.thread, call.subextents) }) := by
  rw [getMetricValues, if_neg other]
  dsimp only
  cases compute data experiment (state.see data experiment call).dmData call values <;> rfl

theorem Remembers.step (separate : Separate data) (remembers : Remembers data experiment seen state)
    (stepped : step data experiment state input = some next) :
    Remembers data experiment (seen ++ [input]) next := by
  have sees : next.dmData = (state.see data experiment input.1).dmData ∧
      next.dmThreads = (state.see data experiment input.1).dmThreads ∧
      next.dmCurrent = some (input.1.thread, input.1.subextents) := by
    by_cases same : state.dmCurrent = some (input.1.thread, input.1.subextents)
    · -- the thread of a repeated query is known
      have known : input.1.thread ∈ state.dmThreads := by
        have before := same
        rw [remembers.current, Option.map_eq_some_iff] at before
        obtain ⟨last, isLast, pair⟩ := before
        exact (remembers.threads _).mpr ⟨last, List.mem_of_getLast? isLast, (Prod.mk.inj pair).1⟩
      rw [Cuda.step, getMetricValues_repeated same] at stepped
      obtain rfl := Option.some.inj stepped
      simp [State.see, known, same]
    · rw [Cuda.step, getMetricValues_new same, Option.map_map, Option.map_eq_some_iff] at stepped
      obtain ⟨values, -, rfl⟩ := stepped
      exact ⟨rfl, rfl, rfl⟩
  refine ⟨?_, fun thread => ?_, fun call own => ?_⟩
  · rw [sees.2.2, List.getLast?_concat]
    rfl
  · rw [sees.2.1, mem_see, remembers.threads, asked_snoc]
  · rw [sees.1]
    exact remembers.see separate own

theorem remembers_of_run (separate : Separate data)
    (ran : Runs.run (Cuda.step data experiment) (initial data) seen = some state) :
    Remembers data experiment seen state :=
  Runs.run_history (Remembers data experiment) remembers_initial
    (fun _ _ _ _ remembers stepped => remembers.step separate stepped) ran

variable [Zero Double]

def metricValues (data : PerformanceData Data Message Name Kernel Transfer)
    (experiment : Experiment Message Name Double) (call : Call) :
    Option (Values Kernel Transfer Double) :=
  compute data experiment
    (getCUDAPerformanceData data experiment data.empty call.collector call.thread) call
    (zero call.metric call.subextents.length)

theorem Remembers.output_repeated (remembers : Remembers data experiment seen state)
    (repeats : Repeats seen call) : output data experiment state call =
      some (zero call.metric call.subextents.length) := by
  rw [output, getMetricValues_repeated (remembers.repeats_iff.mpr repeats)]
  rfl

theorem Remembers.output_new (separate : Separate data)
    (remembers : Remembers data experiment seen state) (own : OwnData experiment seen call)
    (new : ¬ Repeats seen call) : output data experiment state call = metricValues data experiment call := by
  have ownNow : OwnData experiment
      (seen ++ [(call, (zero call.metric 0 : Values Kernel Transfer Double))]) call := by
    refine ⟨fun input member => ?_, fun input member => ?_, fun counts input member => ?_⟩
    all_goals rcases List.mem_append.mp member with before | now
    · exact own.collector input before
    · rw [List.mem_singleton.mp now]
      exact fun _ => rfl
    · exact own.names input before
    · rw [List.mem_singleton.mp now]
      exact fun _ => rfl
    · exact own.counters counts input before
    · rw [List.mem_singleton.mp now]
  obtain ⟨loaded, -⟩ := remembers.see separate ownNow
  obtain ⟨requests, counters⟩ := loaded (asked_snoc.mpr (.inr rfl))
  rw [output, getMetricValues_new (mt remembers.repeats_iff.mp new), Option.map_map, metricValues,
    compute_congr _ requests counters]
  exact Option.map_id'

end

/-- A query after two histories: its values are returned unless it repeats the thread and subextents of
the query before, so that the outputs differ when only one history ends with such a query. -/
theorem output_independent_iff [Add Double] [Zero Double]
    {data : PerformanceData Data Message Name Kernel Transfer}
    {experiment : Experiment Message Name Double} (separate : Separate data) {call : Call}
    {first second : List (Call × Values Kernel Transfer Double)} {one two : State Data}
    (ranFirst : Runs.run (step data experiment) (initial data) first = some one)
    (ranSecond : Runs.run (step data experiment) (initial data) second = some two)
    (ownFirst : OwnData experiment first call) (ownSecond : OwnData experiment second call) :
    (output data experiment one call = output data experiment two call ↔
      (Repeats first call ↔ Repeats second call) ∨
        metricValues data experiment call = some (zero call.metric call.subextents.length)) ∧
    (output data experiment one call = metricValues data experiment call ↔
      ¬ Repeats first call ∨
        metricValues data experiment call = some (zero call.metric call.subextents.length)) := by
  have rememberFirst := remembers_of_run separate ranFirst
  have rememberSecond := remembers_of_run separate ranSecond
  by_cases repeatsFirst : Repeats first call <;> by_cases repeatsSecond : Repeats second call
  · rw [rememberFirst.output_repeated repeatsFirst, rememberSecond.output_repeated repeatsSecond]
    simp [repeatsFirst, repeatsSecond, eq_comm]
  · rw [rememberFirst.output_repeated repeatsFirst, rememberSecond.output_new separate ownSecond repeatsSecond]
    simp [repeatsFirst, repeatsSecond, eq_comm]
  · rw [rememberFirst.output_new separate ownFirst repeatsFirst, rememberSecond.output_repeated repeatsSecond]
    simp [repeatsFirst, repeatsSecond]
  · rw [rememberFirst.output_new separate ownFirst repeatsFirst,
      rememberSecond.output_new separate ownSecond repeatsSecond]
    simp [repeatsFirst, repeatsSecond]

def kernelsOnly : PerformanceData (Nat → List (Event String)) (Event String) Nat String String where
  empty _ := []
  apply dmData own message := Function.update dmData own (dmData own ++ [message])
  counters _ := []
  kernelExecutions dmData name _ := dmData name
  dataTransfers _ _ _ := []
  periodicSamples _ _ _ := []

theorem kernelsOnly_separate : Separate kernelsOnly where
  other dmData name own message apart _ := by simp [kernelsOnly, apart]
  own first second name message same interval := by
    have kernels : first name = second name := (same interval).1
    simp [kernelsOnly, kernels]

def oneKernel : Experiment (Event String) Nat Nat where
  messages _ _ := [⟨"kernel", [4100], 10, 10, 19⟩]
  name thread := thread.dmEntry.toNat
  trim frames _ _ := frames
  seconds := UInt64.toNat

def execQuery (metric : Metric) : Call := ⟨metric, ⟨1, 7⟩, ⟨1, 1⟩, [⟨⟨0, 100⟩, ⟨4096, 8192⟩⟩]⟩

def afterExecTime : State (Nat → List (Event String)) :=
  { (initial kernelsOnly).see kernelsOnly oneKernel (execQuery .execTime) with
    dmCurrent := some (⟨1, 1⟩, [⟨⟨0, 100⟩, ⟨4096, 8192⟩⟩]) }

theorem run_execTime : Runs.run (step kernelsOnly oneKernel) (initial kernelsOnly)
    [(execQuery .execTime, zero .execTime 1)] = some afterExecTime := rfl

theorem output_independent_execTime :
    output kernelsOnly oneKernel (initial kernelsOnly) (execQuery .execTime) =
        metricValues kernelsOnly oneKernel (execQuery .execTime) ∧
      output kernelsOnly oneKernel (initial kernelsOnly) (execQuery .execTime) ≠
        output kernelsOnly oneKernel afterExecTime (execQuery .execTime) := by
  obtain ⟨both, own⟩ := @output_independent_iff _ _ _ _ _ _ _ _ _ oneKernel kernelsOnly_separate
    (execQuery .execTime) [] [(execQuery .execTime, zero .execTime 1)] (initial kernelsOnly)
    afterExecTime rfl run_execTime ⟨by simp, by simp, by simp⟩ ⟨by simp, by simp, by simp⟩
  have values : metricValues kernelsOnly oneKernel (execQuery .execTime) ≠ some (zero .execTime 1) := by
    decide
  refine ⟨own.mpr (.inl (by simp [Repeats])), fun same => ?_⟩
  rcases both.mp same with alike | nothing
  · exact absurd (alike.mpr ⟨_, rfl, rfl, rfl⟩) (by simp [Repeats])
  · exact values nothing

theorem secondMetric_untouched :
    Runs.run (step kernelsOnly oneKernel) (initial kernelsOnly)
        [(execQuery .execTime, zero .execTime 1)] = some afterExecTime ∧
      output kernelsOnly oneKernel afterExecTime (execQuery .execExclusiveDetails) = some (.execDetails [[]]) ∧
      output kernelsOnly oneKernel (initial kernelsOnly) (execQuery .execExclusiveDetails) =
        some (.execDetails [[([4100], [("kernel", 10)])]]) :=
  ⟨rfl, by decide, by decide⟩

end Cuda

end OpenSpeedShop
