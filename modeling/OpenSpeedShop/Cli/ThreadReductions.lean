import OpenSpeedShop.Cli.ClusterViewCore
import OpenSpeedShop.Cli.MetricExpressionsCore
import OpenSpeedShop.Library.EntryMap
import OpenSpeedShop.Library.Fallible
import Mathlib.Data.List.MinMax

/-!
The columns of a view that hold a metric, or one reduced over the threads: all reductions are computed
at once and shared by the columns.
-/

namespace OpenSpeedShop.ThreadReductions

open ClusterView (Thread)
open MetricExpressions (ViewInstruction)
open Option (map_some mem_def)

/-- The reductions `ViewReduction_...` other than the sum. -/
inductive Reduction
  | mean | min | imin | max | imax
  deriving DecidableEq

def Reduction.ofIndex (index : Int) : Option Reduction :=
  if index = 1 then some mean
  else if index = 2 then some min
  else if index = 3 then some imin
  else if index = 4 then some max
  else if index = 5 then some imax
  else none

inductive Reduced (Amount : Type)
  | amount (value : Amount)
  | id (number : Int)
  deriving DecidableEq

def getMinMaxThreadId (t : Thread) (threadIdentifier : Int) : Int :=
  if threadIdentifier = 1 then t.mpiRank.getD (-1)
  else if threadIdentifier = 2 then t.openMPThreadId.getD (-1)
  else if threadIdentifier = 3 then (t.posixThreadId.map BitVec.toInt).getD (-1)
  else if threadIdentifier = 4 then t.processId
  else -1

structure Extremes (Amount : Type) where
  imin : Int
  vmin : Amount
  imax : Int
  vmax : Amount
  sum : Amount
  threadcnt : Int

section

variable {Amount : Type} [Preorder Amount] [DecidableLT Amount] [Add Amount]

def Extremes.start (threadIdentifier : Int) (i : Thread × Amount) : Extremes Amount :=
  ⟨getMinMaxThreadId i.1 threadIdentifier, i.2, getMinMaxThreadId i.1 threadIdentifier, i.2, i.2, 1⟩

def Extremes.compare (threadIdentifier : Int) (x : Extremes Amount) (i : Thread × Amount) : Extremes Amount :=
  if x.vmax < i.2 then { x with imax := getMinMaxThreadId i.1 threadIdentifier, vmax := i.2 }
  else if i.2 < x.vmin then { x with imin := getMinMaxThreadId i.1 threadIdentifier, vmin := i.2 }
  else x

def Extremes.next (threadIdentifier : Int) (x : Extremes Amount) (i : Thread × Amount) : Extremes Amount :=
  { x.compare threadIdentifier i with sum := x.sum + i.2, threadcnt := x.threadcnt + 1 }

def Extremes.result (quotient : Amount → Int → Amount) (x : Extremes Amount) : Reduction → Reduced Amount
  | .mean => .amount (quotient x.sum x.threadcnt)
  | .min => .amount x.vmin
  | .imin => .id x.imin
  | .max => .amount x.vmax
  | .imax => .id x.imax

def threadResult (quotient : Amount → Int → Amount) (threadIdentifier : Int)
    (reduction : Reduction) : List (Thread × Amount) → Option (Reduced Amount)
  | [] => none
  | first :: rest => some ((rest.foldl (Extremes.next threadIdentifier)
      (Extremes.start threadIdentifier first)).result quotient reduction)

def sumOver : List (Thread × Amount) → Option Amount
  | [] => none
  | first :: rest => some (rest.foldl (fun sum i => sum + i.2) first.2)

def reduce (quotient : Amount → Int → Amount) (threadIdentifier : Int)
    (threads : List (Thread × Amount)) : Reduction → Option (Reduced Amount)
  | .mean => (sumOver threads).map fun sum => .amount (quotient sum threads.length)
  | .min => (threads.argmin Prod.snd).map fun i => .amount i.2
  | .imin => (threads.argmin Prod.snd).map fun i => .id (getMinMaxThreadId i.1 threadIdentifier)
  | .max => (threads.argmax Prod.snd).map fun i => .amount i.2
  | .imax => (threads.argmax Prod.snd).map fun i => .id (getMinMaxThreadId i.1 threadIdentifier)

structure Covers (threadIdentifier : Int) (threads : List (Thread × Amount)) (x : Extremes Amount) : Prop where
  least : ∃ i ∈ threads.argmin Prod.snd, x.vmin = i.2 ∧ x.imin = getMinMaxThreadId i.1 threadIdentifier
  greatest : ∃ i ∈ threads.argmax Prod.snd, x.vmax = i.2 ∧ x.imax = getMinMaxThreadId i.1 threadIdentifier
  sum : sumOver threads = some x.sum
  threadcnt : x.threadcnt = threads.length

theorem covers_start (threadIdentifier : Int) (first : Thread × Amount) :
    Covers threadIdentifier [first] (Extremes.start threadIdentifier first) where
  least := ⟨first, rfl, rfl, rfl⟩
  greatest := ⟨first, rfl, rfl, rfl⟩
  sum := rfl
  threadcnt := rfl

variable {threads : List (Thread × Amount)}

omit [Preorder Amount] [DecidableLT Amount] in
theorem sumOver_concat {sum : Amount} (so_far : sumOver threads = some sum) (i : Thread × Amount) :
    sumOver (threads ++ [i]) = some (sum + i.2) := by
  cases threads with
  | nil => cases so_far
  | cons first rest =>
    rw [sumOver, Option.some.injEq] at so_far
    rw [List.cons_append, sumOver, List.foldl_append, so_far, List.foldl_cons, List.foldl_nil]

variable {threadIdentifier : Int}

theorem Covers.next {x : Extremes Amount} (covers : Covers threadIdentifier threads x) (i : Thread × Amount) :
    Covers threadIdentifier (threads ++ [i]) (x.next threadIdentifier i) := by
  obtain ⟨least, leastHere, vmin, imin⟩ := covers.least
  obtain ⟨greatest, greatestHere, vmax, imax⟩ := covers.greatest
  have ordered : ¬ greatest.2 < least.2 :=
    List.not_lt_of_mem_argmin (List.argmax_mem greatestHere) leastHere
  have argmin : (threads ++ [i]).argmin Prod.snd =
      if i.2 < least.2 then some i else some least := by
    rw [List.argmin_concat, mem_def.mp leastHere]
  have argmax : (threads ++ [i]).argmax Prod.snd =
      if greatest.2 < i.2 then some i else some greatest := by
    rw [List.argmax_concat, mem_def.mp greatestHere]
  refine ⟨?_, ?_, sumOver_concat covers.sum i, ?_⟩
  · rw [argmin, Extremes.next, Extremes.compare, vmin, vmax]
    by_cases above : greatest.2 < i.2
    · have notBelow : ¬ i.2 < least.2 := fun below => ordered (lt_trans above below)
      rw [if_pos above, if_neg notBelow]
      exact ⟨least, rfl, rfl, imin⟩
    · rw [if_neg above]
      split
      · exact ⟨i, rfl, rfl, rfl⟩
      · exact ⟨least, rfl, vmin, imin⟩
  · rw [argmax, Extremes.next, Extremes.compare, vmin, vmax]
    by_cases above : greatest.2 < i.2
    · rw [if_pos above, if_pos above]
      exact ⟨i, rfl, rfl, rfl⟩
    · rw [if_neg above, if_neg above]
      split
      · exact ⟨greatest, rfl, rfl, imax⟩
      · exact ⟨greatest, rfl, vmax, imax⟩
  · rw [List.length_append, Extremes.next, covers.threadcnt]
    rfl

theorem covers_foldl (rest : List (Thread × Amount)) :
    ∀ {threads : List (Thread × Amount)} {x : Extremes Amount}, Covers threadIdentifier threads x →
        Covers threadIdentifier (threads ++ rest) (rest.foldl (Extremes.next threadIdentifier) x) := by
  induction rest with
  | nil =>
    intro threads x covers
    rwa [List.append_nil]
  | cons i rest ih =>
    intro threads x covers
    rw [List.foldl_cons, List.append_cons]
    exact ih (covers.next i)

theorem Covers.result {x : Extremes Amount} (covers : Covers threadIdentifier threads x)
    (quotient : Amount → Int → Amount) (reduction : Reduction) :
    reduce quotient threadIdentifier threads reduction = some (x.result quotient reduction) := by
  obtain ⟨least, leastHere, vmin, imin⟩ := covers.least
  obtain ⟨greatest, greatestHere, vmax, imax⟩ := covers.greatest
  have argmin := mem_def.mp leastHere
  have argmax := mem_def.mp greatestHere
  cases reduction with
  | mean => rw [reduce, covers.sum, map_some, ← covers.threadcnt, Extremes.result]
  | min => rw [reduce, argmin, map_some, Extremes.result, vmin]
  | imin => rw [reduce, argmin, map_some, Extremes.result, imin]
  | max => rw [reduce, argmax, map_some, Extremes.result, vmax]
  | imax => rw [reduce, argmax, map_some, Extremes.result, imax]

theorem threadResult_eq (quotient : Amount → Int → Amount) (threadIdentifier : Int)
    (reduction : Reduction) (threads : List (Thread × Amount)) :
    threadResult quotient threadIdentifier reduction threads =
      reduce quotient threadIdentifier threads reduction := by
  cases threads with
  | nil => cases reduction <;> rfl
  | cons first rest =>
    have covers := covers_foldl rest (covers_start threadIdentifier first)
    rw [threadResult, ← covers.result]
    rfl

variable {quotient : Amount → Int → Amount}

end

structure Individual (Object Amount : Type) where
  entries : List (Object × List (Thread × Amount))
  nodup : (entries.map Prod.fst).Nodup

/-- How the values of metrics are found. A metric is reducible when its values are of one of the
six numeric types. -/
structure MetricSource (Metric Interval Object Amount : Type) where
  reducible : Metric → Bool
  getMetricValues : Metric → Interval → List Object → Individual Object Amount → Individual Object Amount
  getMetricByObjectSet : Metric → List Object → List (Object × Reduced Amount)
  quotient : Amount → Int → Amount
  intervals : List Interval

inductive Column (Metric : Type)
  | other
  | metric (shown : Metric)
  | byThread (shown : Metric) (threadIdentifier : Int) (kind : Reduction)
  deriving DecidableEq

namespace Column

variable {Metric Value : Type}

/-- An index outside of the vectors of collectors and metrics is undefined, and an assertion keeps
out the sum. -/
def ofInstruction (metrics : List Metric) (vinst : ViewInstruction Value) : Option (Column Metric) :=
  if vinst.opCode = .displayMetric then
    (CheckedVector.get metrics vinst.tmpIndex1).map metric
  else if vinst.opCode = .displayByThreadMetric then do
    let shown ← CheckedVector.get metrics vinst.tmpIndex1
    let kind ← Reduction.ofIndex vinst.tmpIndex2
    some (byThread shown vinst.tmpIndex3 kind)
  else some other

def source : Column Metric → Option (Metric × Int)
  | byThread shown threadIdentifier _ => some (shown, threadIdentifier)
  | _ => none

def reduction : Column Metric → Option Reduction
  | byThread _ _ kind => some kind
  | _ => none

end Column

section

variable {Metric Interval Object Amount Value : Type} [DecidableEq Object] [Preorder Amount]
  [DecidableLT Amount] [Add Amount] (from_ : MetricSource Metric Interval Object Amount)

def getMetricInThreadGroupByThread (metric : Metric) (objects : List Object) : Individual Object Amount :=
  from_.intervals.foldl (fun individual interval =>
    from_.getMetricValues metric interval objects individual) ⟨[], List.nodup_nil⟩

def getMaxMinIdxAvg (individual : Individual Object Amount) (threadIdentifier : Int)
    (reduction : Reduction) : List (Object × Reduced Amount) :=
  individual.entries.filterMap fun j =>
    (threadResult from_.quotient threadIdentifier reduction j.2).map (j.1, ·)

def getReducedMaxMinIdxAvg (metric : Metric) (threadIdentifier : Int) (objects : List Object)
    (reduction : Reduction) : List (Object × Reduced Amount) :=
  if objects = [] then []
  else if from_.reducible metric then
    getMaxMinIdxAvg from_ (getMetricInThreadGroupByThread from_ metric objects) threadIdentifier reduction
  else []

structure ByThread (Object Amount : Type) where
  infoDetermined : Bool
  values : Reduction → List (Object × Reduced Amount)

def ByThread.start : ByThread Object Amount := ⟨false, fun _ => []⟩

def ByThread.determine (objects : List Object) (metric : Metric) (threadIdentifier : Int)
    (shared : ByThread Object Amount) : ByThread Object Amount :=
  if shared.infoDetermined then shared
  else ⟨true, getReducedMaxMinIdxAvg from_ metric threadIdentifier objects⟩

def columnValues (objects : List Object) (shared : ByThread Object Amount) :
    Column Metric → List (Object × Reduced Amount) × ByThread Object Amount
  | .other => ([], shared)
  | .metric metric => (from_.getMetricByObjectSet metric objects, shared)
  | .byThread metric threadIdentifier reduction =>
    let shared := shared.determine from_ objects metric threadIdentifier
    (shared.values reduction,
      { shared with values := Function.update shared.values reduction [] })

def allValues (objects : List Object) :
    ByThread Object Amount → List (Column Metric) → List (List (Object × Reduced Amount))
  | _, [] => []
  | shared, column :: rest =>
    (columnValues from_ objects shared column).1 ::
      allValues objects (columnValues from_ objects shared column).2 rest

/-- Whether there are extra metrics, and the values of each column. The first one has its values
already. -/
def getExtraMetrics {Item : Type} (metrics : List Metric) (items : List (Object × Item)) :
    List (ViewInstruction Value) → Option (Bool × List (List (Object × Reduced Amount)))
  | [] => some (false, [])
  | _ :: extra => do
      let columns ← extra.mapM (Column.ofInstruction metrics)
      some (columns.any fun column => column.reduction.isSome,
        [] :: allValues from_ (items.map Prod.fst) .start columns)

def ownValue (objects : List Object) (object : Object) : Column Metric → Option (Reduced Amount)
  | .other => none
  | .metric metric => EntryMap.lookup object (from_.getMetricByObjectSet metric objects)
  | .byThread metric threadIdentifier reduction =>
    if from_.reducible metric then do
      let threads ← EntryMap.lookup object (getMetricInThreadGroupByThread from_ metric objects).entries
      reduce from_.quotient threadIdentifier threads reduction
    else none

/-- The instructions of a view that displays metrics that it has, with the reductions that there
are over threads. -/
structure Request (Metric Value : Type) where
  metrics : List Metric
  first : ViewInstruction Value
  extra : List (ViewInstruction Value)
  valid : ∀ vinst ∈ first :: extra, (Column.ofInstruction metrics vinst).isSome

def Request.columns (request : Request Metric Value) : List (Column Metric) :=
  request.extra.filterMap (Column.ofInstruction request.metrics)

def HoldsOwn (objects : List Object) (columns : List (Column Metric))
    (values : List (List (Object × Reduced Amount))) : Prop :=
  ∀ (i : Nat) (column : Column Metric), columns[i]? = some column →
    ∃ held, values[i + 1]? = some held ∧
      ∀ object ∈ objects, EntryMap.lookup object held = ownValue from_ objects object column

def firstSource (columns : List (Column Metric)) : Option (Metric × Int) :=
  columns.findSome? Column.source

/-- Every reduction is the one of the first metric that is reduced, and has nothing to give when
it is asked for again. -/
def sharedValue (objects : List Object) (columns : List (Column Metric)) (i : Nat)
    (object : Object) : Column Metric → Option (Reduced Amount)
  | .byThread _ _ reduction =>
    if reduction ∈ (columns.take i).filterMap Column.reduction then none
    else (firstSource columns).bind fun source =>
      ownValue from_ objects object (.byThread source.1 source.2 reduction)
  | column => ownValue from_ objects object column

def Shareable (objects : List Object) (columns : List (Column Metric)) : Prop :=
  ∀ (i : Nat) (column : Column Metric), columns[i]? = some column →
    ∀ object ∈ objects,
      ownValue from_ objects object column = sharedValue from_ objects columns i object column

variable {from_}

theorem lookup_getMaxMinIdxAvg (individual : Individual Object Amount) (threadIdentifier : Int)
    (reduction : Reduction) (object : Object) :
    EntryMap.lookup object (getMaxMinIdxAvg from_ individual threadIdentifier reduction) =
      (EntryMap.lookup object individual.entries).bind fun threads =>
        reduce from_.quotient threadIdentifier threads reduction := by
  rw [getMaxMinIdxAvg, EntryMap.lookup_filterMap _ individual.nodup]
  congr 1
  funext threads
  exact threadResult_eq _ _ _ threads

theorem lookup_getReducedMaxMinIdxAvg (metric : Metric) (threadIdentifier : Int)
    (reduction : Reduction) {objects : List Object} {object : Object} (member : object ∈ objects) :
    EntryMap.lookup object (getReducedMaxMinIdxAvg from_ metric threadIdentifier objects reduction) =
      ownValue from_ objects object (.byThread metric threadIdentifier reduction) := by
  rw [getReducedMaxMinIdxAvg, if_neg (List.ne_nil_of_mem member), ownValue]
  split
  · exact lookup_getMaxMinIdxAvg _ _ _ _
  · rfl

variable (from_) in
def sharedAfter (objects : List Object) (before : List (Column Metric)) : ByThread Object Amount where
  infoDetermined := (firstSource before).isSome
  values reduction :=
    if reduction ∈ before.filterMap Column.reduction then []
    else ((firstSource before).map fun source =>
      getReducedMaxMinIdxAvg from_ source.1 source.2 objects reduction).getD []

theorem firstSource_concat (before : List (Column Metric)) (column : Column Metric) :
    firstSource (before ++ [column]) = (firstSource before).or column.source := by
  rw [firstSource, List.findSome?_append]
  congr 1
  cases column <;> rfl

omit [DecidableEq Object] in
theorem determine_sharedAfter (objects : List Object) (before : List (Column Metric))
    (metric : Metric) (threadIdentifier : Int) (reduction : Reduction) :
    (sharedAfter from_ objects before).determine from_ objects metric threadIdentifier = ⟨true, fun kind =>
        if kind ∈ before.filterMap Column.reduction then []
        else ((firstSource (before ++ [.byThread metric threadIdentifier reduction])).map
          fun source => getReducedMaxMinIdxAvg from_ source.1 source.2 objects kind).getD []⟩ := by
  rw [ByThread.determine, firstSource_concat]
  cases found : firstSource before with
  | some source =>
    have determined : (sharedAfter from_ objects before).infoDetermined = true := by
      rw [sharedAfter, found]
      rfl
    rw [if_pos determined, sharedAfter, found]
    rfl
  | none =>
    have undetermined : ¬ (sharedAfter from_ objects before).infoDetermined = true := by
      rw [sharedAfter, found]
      exact Bool.false_ne_true
    have unused : before.filterMap Column.reduction = [] := by
      rw [List.filterMap_eq_nil_iff]
      intro column member
      have sourceless := List.findSome?_eq_none_iff.mp found column member
      cases column with
      | other => rfl
      | metric shown => rfl
      | byThread shown identifier kind => cases sourceless
    rw [if_neg undetermined, unused]
    rfl

omit [DecidableEq Object] in
theorem sharedAfter_concat (objects : List Object) (before : List (Column Metric))
    (column : Column Metric) : (columnValues from_ objects (sharedAfter from_ objects before) column).2 =
      sharedAfter from_ objects (before ++ [column]) := by
  cases column with
  | other =>
    rw [columnValues, sharedAfter, sharedAfter, firstSource_concat, List.filterMap_append]
    simp [Column.source, Column.reduction]
  | metric shown =>
    rw [columnValues, sharedAfter, sharedAfter, firstSource_concat, List.filterMap_append]
    simp [Column.source, Column.reduction]
  | byThread metric threadIdentifier reduction =>
    rw [columnValues, determine_sharedAfter _ _ _ _ reduction]
    have determined :
        (firstSource (before ++ [.byThread metric threadIdentifier reduction])).isSome = true := by
      rw [firstSource_concat, Column.source]
      simp
    have values : ∀ kind, Function.update (fun kind =>
          if kind ∈ before.filterMap Column.reduction then []
          else ((firstSource (before ++ [.byThread metric threadIdentifier reduction])).map
            fun source => getReducedMaxMinIdxAvg from_ source.1 source.2 objects kind).getD [])
        reduction [] kind = (sharedAfter from_ objects
          (before ++ [.byThread metric threadIdentifier reduction])).values kind := by
      intro kind
      simp only [sharedAfter, List.filterMap_append, List.mem_append]
      by_cases same : kind = reduction
      · subst same
        simp [Column.reduction]
      · have other : kind ∉ [Column.byThread metric threadIdentifier reduction].filterMap
            Column.reduction := by
          simp [Column.reduction, same]
        rw [Function.update_of_ne same]
        simp only [other, or_false]
    simp only [funext values]
    rw [← determined]
    rfl

omit [DecidableEq Object] in
theorem allValues_getElem? (objects : List Object) : ∀ (columns before : List (Column Metric)) (i : Nat),
      (allValues from_ objects (sharedAfter from_ objects before) columns)[i]? = columns[i]?.map fun column =>
          (columnValues from_ objects (sharedAfter from_ objects (before ++ columns.take i)) column).1 := by
  intro columns
  induction columns with
  | nil =>
    intro before i
    rfl
  | cons column rest ih =>
    intro before i
    cases i with
    | zero =>
      rw [List.take_zero, List.append_nil]
      rfl
    | succ i =>
      rw [allValues, List.getElem?_cons_succ, List.getElem?_cons_succ, sharedAfter_concat, ih,
        List.take_succ_cons, ← List.append_cons]

variable {columns : List (Column Metric)} {column : Column Metric}

theorem firstSource_take {i : Nat} (at_ : columns[i]? = some column) (sourced : column.source.isSome) :
    firstSource (columns.take i ++ [column]) = firstSource columns := by
  have split : columns = (columns.take i ++ [column]) ++ columns.drop (i + 1) := by
    obtain ⟨inside, rfl⟩ := List.getElem?_eq_some_iff.mp at_
    rw [← List.append_cons, ← List.drop_eq_getElem_cons, List.take_append_drop]
  have found : (firstSource (columns.take i ++ [column])).isSome := by
    rw [firstSource_concat, Option.isSome_or, sourced, Bool.or_true]
  calc firstSource (columns.take i ++ [column])
      = (firstSource (columns.take i ++ [column])).or (firstSource (columns.drop (i + 1))) :=
        (Option.or_of_isSome found).symm
    _ = firstSource columns := by
        conv_rhs => rw [split]
        exact List.findSome?_append.symm

theorem lookup_columnValues {objects : List Object} {i : Nat}
    (at_ : columns[i]? = some column) {object : Object} (member : object ∈ objects) :
    EntryMap.lookup object (columnValues from_ objects (sharedAfter from_ objects (columns.take i)) column).1 =
      sharedValue from_ objects columns i object column := by
  cases column with
  | other => rfl
  | metric shown => rfl
  | byThread metric threadIdentifier reduction =>
    rw [columnValues, determine_sharedAfter _ _ _ _ reduction, firstSource_take at_ rfl, sharedValue]
    by_cases used : reduction ∈ (columns.take i).filterMap Column.reduction
    · rw [if_pos used]
      simp only [used, if_true]
      rfl
    · rw [if_neg used]
      simp only [used, if_false]
      cases firstSource columns with
      | none => rfl
      | some source => exact lookup_getReducedMaxMinIdxAvg _ _ _ member

variable (from_) in
theorem lookup_allValues (objects : List Object) {i : Nat} (at_ : columns[i]? = some column) :
    ∃ held, ([] :: allValues from_ objects .start columns)[i + 1]? = some held ∧
      ∀ object ∈ objects, EntryMap.lookup object held = sharedValue from_ objects columns i object column := by
  have start : (.start : ByThread Object Amount) = sharedAfter from_ objects ([] : List (Column Metric)) := rfl
  refine ⟨_, ?_, fun object member => lookup_columnValues at_ member⟩
  rw [List.getElem?_cons_succ, start, allValues_getElem?, List.nil_append, at_, Option.map_some]

theorem holdsOwn_iff (objects : List Object) (columns : List (Column Metric)) :
    HoldsOwn from_ objects columns ([] :: allValues from_ objects .start columns) ↔
      Shareable from_ objects columns := by
  constructor
  · intro holds i column at_ object member
    obtain ⟨held, there, own⟩ := holds i column at_
    obtain ⟨given, here, shared⟩ := lookup_allValues from_ objects at_
    rw [there, Option.some.injEq] at here
    rw [← own object member, here, shared object member]
  · intro shareable i column at_
    obtain ⟨held, there, shared⟩ := lookup_allValues from_ objects at_
    refine ⟨held, there, fun object member => ?_⟩
    rw [shared object member, shareable i column at_ object member]

omit [DecidableEq Object] in
theorem getExtraMetrics_eq (request : Request Metric Value) {Item : Type} (items : List (Object × Item)) :
    getExtraMetrics from_ request.metrics items (request.first :: request.extra) =
      some (request.columns.any fun column => column.reduction.isSome,
        [] :: allValues from_ (items.map Prod.fst) .start request.columns) := by
  have columns : request.extra.mapM (Column.ofInstruction request.metrics) = some request.columns :=
    Fallible.mapM_eq_filterMap fun vinst member =>
      request.valid vinst (List.mem_cons_of_mem _ member)
  rw [getExtraMetrics, columns]
  rfl

/-- Every column holds its own metric for every object, if and only if the columns can share the
reductions of the first metric that is reduced. -/
theorem getExtraMetrics_own_iff (request : Request Metric Value) {Item : Type}
    (items : List (Object × Item)) :
    (∃ extra values, getExtraMetrics from_ request.metrics items
          (request.first :: request.extra) = some (extra, values) ∧
        HoldsOwn from_ (items.map Prod.fst) request.columns values) ↔
      Shareable from_ (items.map Prod.fst) request.columns := by
  rw [← holdsOwn_iff, getExtraMetrics_eq]
  constructor
  · rintro ⟨extra, values, answered, holds⟩
    obtain ⟨-, rfl⟩ := Prod.mk.inj (Option.some.inj answered)
    exact holds
  · intro holds
    exact ⟨_, _, rfl, holds⟩

end

/-! `expView -m time,ThreadMax,ThreadMax`, and the maxima of two metrics. -/

def rankThread (rank : Nat) : Thread := ⟨rank, "host", rank, none, none, some rank⟩

def twoRanks : MetricSource Nat Unit Nat Nat where
  reducible _ := true
  getMetricValues metric _ _ _ :=
    ⟨[(7, [(rankThread 0, 3), (rankThread 1, 2 + 3 * metric)])], List.nodup_singleton 7⟩
  getMetricByObjectSet metric _ := [(7, .amount (5 + 3 * metric))]
  quotient sum threadcnt := sum / threadcnt.toNat
  intervals := [()]

def displayTime : ViewInstruction Unit := ⟨.displayMetric, .error, 0, 0, -1, -1, none⟩

def displayMax (column metric : Int) : ViewInstruction Unit :=
  ⟨.displayByThreadMetric, .error, column, metric, 4, 1, none⟩

def maxTwice : Request Nat Unit where
  metrics := [0]
  first := displayTime
  extra := [displayMax 1 0, displayMax 2 0]
  valid := by decide

def minMaxOfTwo : Request Nat Unit where
  metrics := [0, 1]
  first := displayTime
  extra := [{ displayMax 1 0 with tmpIndex2 := 2 }, displayMax 2 1]
  valid := by decide

theorem getExtraMetrics_mixed :
    (¬ ∃ extra values, getExtraMetrics twoRanks maxTwice.metrics [(7, ())]
        (maxTwice.first :: maxTwice.extra) = some (extra, values) ∧
      HoldsOwn twoRanks [7] maxTwice.columns values) ∧
    ¬ ∃ extra values, getExtraMetrics twoRanks minMaxOfTwo.metrics [(7, ())]
        (minMaxOfTwo.first :: minMaxOfTwo.extra) = some (extra, values) ∧
      HoldsOwn twoRanks [7] minMaxOfTwo.columns values := by
  rw [getExtraMetrics_eq, getExtraMetrics_eq]
  constructor
  · rintro ⟨extra, values, answered, holds⟩
    obtain ⟨-, rfl⟩ := Prod.mk.inj (Option.some.inj answered)
    have empty := (holdsOwn_iff _ _).mp holds 1 (.byThread 0 1 .max) rfl 7 (List.mem_singleton_self 7)
    revert empty
    decide
  · rintro ⟨extra, values, answered, holds⟩
    obtain ⟨-, rfl⟩ := Prod.mk.inj (Option.some.inj answered)
    have other := (holdsOwn_iff _ _).mp holds 1 (.byThread 1 1 .max) rfl 7 (List.mem_singleton_self 7)
    revert other
    decide

end OpenSpeedShop.ThreadReductions
