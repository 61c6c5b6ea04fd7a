import OpenSpeedShop.Cli.ThreadReductions
import OpenSpeedShop.Cli.ViewOutputCore
import OpenSpeedShop.Library.Ranking
import Mathlib.Algebra.GroupWithZero.Nat
import Mathlib.Data.Sum.Order

/-!
`Generic_View`: the objects of a view are sorted by the metric of its first column, cut off at the row
limit, and shown with the values of all columns.
-/

namespace OpenSpeedShop.StatsView

open MetricExpressions (ViewInstruction)
open ViewOutput (columnsFrom findColumnDef)
open ThreadReductions
open Ranking (Sorting Top)

inductive ViewGranularity
  | functions | statements | linkedObjects | loops
  deriving DecidableEq

def viewGranularity (lookForKeyWord : String → Bool) : ViewGranularity :=
  if lookForKeyWord "Statement" || lookForKeyWord "Statements" then .statements
  else if lookForKeyWord "LinkedObject" || lookForKeyWord "LinkedObjects" ||
      lookForKeyWord "Dso" || lookForKeyWord "Dsos" then .linkedObjects
  else if lookForKeyWord "Loop" || lookForKeyWord "Loops" then .loops
  else .functions

inductive Cell (Amount Percent : Type)
  | value (value : Reduced Amount)
  | percent (value : Percent)
  | blank
  deriving DecidableEq

abbrev Item (Object Amount : Type) := Object × Reduced Amount

structure ViewSource (Metric Interval Object Amount Percent : Type) extends
    MetricSource Metric Interval Object Amount where
  initCollectorMetric : Metric → Option (Reduced Amount)
  getObjectMetric : Metric → Object → Option (Reduced Amount)
  getTotalMetric : Metric → Option (Reduced Amount)
  calculatePercent : Option (Cell Amount Percent) → Reduced Amount → Option (Cell Amount Percent)
  isZero : Amount → Bool
  suppressUnusedElements : Bool
  sorting : Sorting (Item Object Amount)
  /-- A map has one value for a key. -/
  metric_nodup : ∀ metric objects, ((getMetricByObjectSet metric objects).map Prod.fst).Nodup

section

variable {Metric Value : Type}

def displays : Column Metric → Bool
  | .other => false
  | _ => true

inductive ViewColumn (Metric : Type)
  | shown (column : Column Metric)
  | percent (metric : Metric)

def ViewColumn.read (metrics : List Metric) (iv : List (ViewInstruction Value))
    (vinst : ViewInstruction Value) : Option (ViewColumn Metric) :=
  if vinst.opCode = .displayPercentColumn then do
    let percentInst ← findColumnDef iv vinst.tmpIndex1
    (CheckedVector.get metrics percentInst.tmpIndex1).map percent
  else (Column.ofInstruction metrics vinst).map shown

def ViewColumn.column : ViewColumn Metric → Column Metric
  | shown column => column
  | percent _ => .other

def sortColumn (metrics : List Metric) (iv : List (ViewInstruction Value)) : Option (Column Metric) := do
  let vp ← findColumnDef iv 0
  let vp ← if vp.opCode = .displayPercentColumn then findColumnDef iv vp.tmpIndex1 else some vp
  let column ← Column.ofInstruction metrics vp
  match column with
  | .other => (CheckedVector.get metrics 0).map .metric
  | column => some column

def findTotal (iv : List (ViewInstruction Value)) : Option (Option (ViewInstruction Value) × Int) :=
  iv.foldlM (fun found vinst =>
    if vinst.opCode = .defineTotalMetric then
      if found.1.isNone ∧ vinst.tmpResult = 0 then some (some vinst, found.2) else none
    else if vinst.opCode = .displayPercentColumn then
      if found.2 = -1 ∧ vinst.tmpIndex2 = 0 then some (found.1, vinst.tmpIndex1) else none
    else some found) (none, -1)

end

section

variable {Metric Interval Object Amount Percent Value : Type} [DecidableEq Object]
  [LinearOrder Amount] [Add Amount] (source : ViewSource Metric Interval Object Amount Percent)

def totalValue (metrics : List Metric) (iv : List (ViewInstruction Value)) :
    Option (Option (Reduced Amount) × Int) := do
  let found ← findTotal iv
  match found.1 with
  | none => some (none, found.2)
  | some totalInst =>
    if found.2 = -1 then some (none, found.2)
    else do
      let metric ← CheckedVector.get metrics totalInst.tmpIndex1
      some (source.getTotalMetric metric, found.2)

def rank (item : Item Object Amount) : Lex (Amount ⊕ Int) :=
  match item.2 with
  | .amount value => toLex (.inl value)
  | .id number => toLex (.inr number)

def valueIsNull : Reduced Amount → Bool
  | .amount value => source.isZero value
  | .id _ => false

def columnItems (objects : List Object) : Column Metric → List (Item Object Amount)
  | .other => []
  | .metric metric => source.getMetricByObjectSet metric objects
  | .byThread metric threadIdentifier reduction =>
    getReducedMaxMinIdxAvg source.toMetricSource metric threadIdentifier objects reduction

def valuedItems (sort : Column Metric) (objects : List Object) : List (Item Object Amount) :=
  if objects = [] then []
  else (columnItems source objects sort).filter fun item =>
    !(source.suppressUnusedElements && valueIsNull source item.2)

def sortAscending : Column Metric → Bool
  | .byThread _ _ reduction => reduction = .imin ∨ reduction = .imax
  | _ => false

def firstColumn (sort : Column Metric) (objects : List Object) : List (Item Object Amount) :=
  if sortAscending sort then
    source.sorting.sort (fun x y => decide (rank x < rank y)) (valuedItems source sort objects)
  else
    source.sorting.sort (fun x y => decide (rank y < rank x)) (valuedItems source sort objects)

def rowLimit (topn : Nat) : Nat := if topn = 0 then 2 ^ 31 - 1 else topn

structure AllItems (Object Amount : Type) where
  f : List (Item Object Amount)
  s : List (Item Object Amount)
  loop : List (Item Object Amount)
  l : List (Item Object Amount)

def acquire (vg : ViewGranularity) (items : List (Item Object Amount)) : AllItems Object Amount :=
  match vg with
  | .statements => ⟨[], items, [], []⟩
  | .linkedObjects => ⟨[], [], [], items⟩
  | .loops => ⟨[], [], items, []⟩
  | .functions => ⟨items, [], [], []⟩

def formatted (vg : ViewGranularity) (items : AllItems Object Amount) : List (Item Object Amount) :=
  match vg with
  | .statements => items.s
  | .linkedObjects => items.l
  | _ => items.f

def cellOf : Option (Reduced Amount) → Cell Amount Percent
  | some value => .value value
  | none => .blank

def extraCell (found : Option (Reduced Amount)) : Column Metric → Cell Amount Percent
  | .other => .blank
  | .metric metric => cellOf (found.or (source.initCollectorMetric metric))
  | .byThread metric _ _ => cellOf (found.or (source.initCollectorMetric metric))

def metricCell (found : Nat → Column Metric → Option (Reduced Amount)) (item : Item Object Amount)
    (i : Nat) (column : Column Metric) : Cell Amount Percent :=
  if i = 0 ∧ displays column then .value item.2
  else extraCell source (found i column) column

def rowFrom (cell : Nat → Column Metric → Cell Amount Percent) (object : Object)
    (total : Option (Reduced Amount)) (percentofcolumn : Int) :
    Nat → Option (Cell Amount Percent) → List (ViewColumn Metric) → List (Option (Cell Amount Percent))
  | _, _, [] => []
  | i, percentOf, .shown column :: rest =>
    let next := cell i column
    some next :: rowFrom cell object total percentofcolumn (i + 1)
      (if total.isSome ∧ i = percentofcolumn then some next else percentOf) rest
  | i, percentOf, .percent metric :: rest =>
    match total with
    | none => none :: rowFrom cell object total percentofcolumn (i + 1) percentOf rest
    | some totalValue =>
      let next := (if percentofcolumn < i ∧ percentOf.isSome then
          source.calculatePercent percentOf totalValue
        else
          source.calculatePercent ((source.getObjectMetric metric object).map .value) totalValue).getD .blank
      some next :: rowFrom cell object total percentofcolumn (i + 1)
        (if i = percentofcolumn then some next else percentOf) rest

structure Row (Object Amount Percent : Type) where
  cells : List (Option (Cell Amount Percent))
  object : Object

def genericView (metrics : List Metric) (iv : List (ViewInstruction Value))
    (vg : ViewGranularity) (selected : List Object) (topn : Nat) :
    Option (List (Row Object Amount Percent)) := do
  let viewInst := columnsFrom iv iv.length 0
  let columns ← viewInst.mapM (ViewColumn.read metrics iv)
  let sort ← sortColumn metrics iv
  let total ← totalValue source metrics iv
  let items := acquire vg ((firstColumn source sort selected).take (rowLimit topn))
  let shown := formatted vg items
  let extra ← getExtraMetrics source.toMetricSource metrics shown viewInst
  some (shown.map fun item =>
    ⟨rowFrom source (metricCell source (fun i _ =>
      EntryMap.lookup item.1 (extra.2.getD i [])) item) item.1 total.1 total.2 0 none columns,
      item.1⟩)

structure Request (Value : Type) where
  metrics : List Metric
  iv : List (ViewInstruction Value)
  first : ViewColumn Metric
  extra : List (ViewColumn Metric)
  sort : Column Metric
  total : Option (Reduced Amount)
  percentofcolumn : Int
  columns_read : (columnsFrom iv iv.length 0).mapM (ViewColumn.read metrics iv) = some (first :: extra)
  sort_read : sortColumn metrics iv = some sort
  total_read : totalValue source metrics iv = some (total, percentofcolumn)

variable {source}

namespace Request

variable (request : Request source Value)

def columns : List (Column Metric) := request.extra.map ViewColumn.column

def row (found : Object → Nat → Column Metric → Option (Reduced Amount))
    (item : Item Object Amount) : Row Object Amount Percent :=
  ⟨rowFrom source (metricCell source (found item.1) item) item.1 request.total
    request.percentofcolumn 0 none (request.first :: request.extra), item.1⟩

variable (source) in
def own (objects : List Object) (object : Object) (_ : Nat) (column : Column Metric) :
    Option (Reduced Amount) :=
  ownValue source.toMetricSource objects object column

def shared (objects : List Object) (object : Object) (i : Nat) (column : Column Metric) :
    Option (Reduced Amount) :=
  sharedValue source.toMetricSource objects request.columns (i - 1) object column

/-- One row for each object of the greatest values of the sort metric, in non-increasing order,
with the object's own values. -/
def Shows (vg : ViewGranularity) (selected : List Object) (topn : Nat) : Prop :=
  ∃ shown, Top rank (rowLimit topn) (valuedItems source request.sort selected) shown ∧
    genericView source request.metrics request.iv vg selected topn =
      some (shown.map (request.row (own source (shown.map Prod.fst))))

def leading (selected : List Object) (topn : Nat) : List Object :=
  ((firstColumn source request.sort selected).take (rowLimit topn)).map Prod.fst

structure Agrees (vg : ViewGranularity) (selected : List Object) (topn : Nat) : Prop where
  loops : vg = .loops → valuedItems source request.sort selected = []
  ascending : sortAscending request.sort = true →
    ∀ one ∈ valuedItems source request.sort selected,
      ∀ other ∈ valuedItems source request.sort selected, one.2 = other.2
  shared : ∀ i column, request.columns[i]? = some column →
    ∀ object ∈ request.leading selected topn,
      extraCell source (request.shared (request.leading selected topn) object (i + 1) column) column =
        extraCell source (own source (request.leading selected topn) object (i + 1) column) column

end Request

omit [DecidableEq Object] [LinearOrder Amount] [Add Amount] in
theorem rowFrom_eq_iff {cell other : Nat → Column Metric → Cell Amount Percent} {object : Object}
    {total : Option (Reduced Amount)} {percentofcolumn : Int} {columns : List (ViewColumn Metric)} :
    ∀ {i : Nat} {percentOf : Option (Cell Amount Percent)},
      rowFrom source cell object total percentofcolumn i percentOf columns =
          rowFrom source other object total percentofcolumn i percentOf columns ↔
        ∀ j column, columns[j]? = some (.shown column) → cell (i + j) column = other (i + j) column := by
  induction columns with
  | nil => simp [rowFrom]
  | cons first rest ih =>
    intro i percentOf
    have later : (∀ j column, (first :: rest)[j]? = some (.shown column) →
          cell (i + j) column = other (i + j) column) ↔
        (∀ column, first = .shown column → cell i column = other i column) ∧
          ∀ j column, rest[j]? = some (.shown column) →
            cell (i + 1 + j) column = other (i + 1 + j) column := by
      constructor
      · intro each
        refine ⟨fun column same => each 0 column (by rw [same]; rfl), fun j column at_ => ?_⟩
        rw [Nat.add_right_comm]
        exact each (j + 1) column at_
      · rintro ⟨here, behind⟩ j column at_
        cases j with
        | zero => exact here column (Option.some.inj at_)
        | succ j =>
          rw [Nat.add_comm j 1, ← Nat.add_assoc]
          exact behind j column at_
    rw [later]
    cases first with
    | shown column =>
      simp only [rowFrom, List.cons.injEq, Option.some.injEq, ViewColumn.shown.injEq, forall_eq']
      constructor
      · rintro ⟨here, behind⟩
        rw [here] at behind
        exact ⟨here, ih.mp behind⟩
      · rintro ⟨here, behind⟩
        rw [here]
        exact ⟨rfl, ih.mpr behind⟩
    | percent metric =>
      have none_ : ∀ column : Column Metric, ViewColumn.percent metric = .shown column →
          cell i column = other i column := fun column same => by cases same
      cases total with
      | none =>
        simp only [rowFrom, List.cons.injEq, true_and]
        exact ih.trans (and_iff_right none_).symm
      | some totalValue =>
        simp only [rowFrom, List.cons.injEq, true_and]
        exact ih.trans (and_iff_right none_).symm

variable {iv : List (ViewInstruction Value)}

theorem ofInstruction_of_read {metrics : List Metric}
    {vinst : ViewInstruction Value} {column : ViewColumn Metric}
    (read : ViewColumn.read metrics iv vinst = some column) :
    Column.ofInstruction metrics vinst = some column.column := by
  rw [ViewColumn.read] at read
  split at read
  · rename_i percentage
    obtain ⟨percentInst, -, read⟩ := Option.bind_eq_some_iff.mp read
    obtain ⟨metric, -, rfl⟩ := Option.map_eq_some_iff.mp read
    rw [Column.ofInstruction, percentage]
    rfl
  · obtain ⟨shown, found, rfl⟩ := Option.map_eq_some_iff.mp read
    exact found

theorem mapM_ofInstruction {metrics : List Metric} :
    ∀ {viewInst : List (ViewInstruction Value)} {columns : List (ViewColumn Metric)},
      viewInst.mapM (ViewColumn.read metrics iv) = some columns →
        viewInst.mapM (Column.ofInstruction metrics) = some (columns.map ViewColumn.column) := by
  intro viewInst
  induction viewInst with
  | nil =>
    intro columns read
    obtain rfl := Option.some.inj read
    rfl
  | cons vinst rest ih =>
    intro columns read
    rw [List.mapM_cons] at read
    obtain ⟨column, here, read⟩ := Option.bind_eq_some_iff.mp read
    obtain ⟨others, behind, read⟩ := Option.bind_eq_some_iff.mp read
    obtain rfl := Option.some.inj read
    rw [List.mapM_cons, ofInstruction_of_read here, ih behind]
    rfl

variable {item : Item Object Amount}

omit [DecidableEq Object] [LinearOrder Amount] [Add Amount] in
theorem metricCell_eq {found other : Nat → Column Metric → Option (Reduced Amount)}
    {i : Nat} {column : Column Metric} :
    metricCell source found item i column = metricCell source other item i column ↔
      (i ≠ 0 → extraCell source (found i column) column = extraCell source (other i column) column) := by
  rw [metricCell, metricCell]
  by_cases first : i = 0
  · cases column <;> simp [first, displays, extraCell]
  · simp [first]

theorem genericView_eq (request : Request source Value) (vg : ViewGranularity)
    (selected : List Object) (topn : Nat) : genericView source request.metrics request.iv vg selected topn =
      some ((formatted vg (acquire vg ((firstColumn source request.sort selected).take (rowLimit topn)))).map
        (request.row (request.shared ((formatted vg (acquire vg
          ((firstColumn source request.sort selected).take (rowLimit topn)))).map Prod.fst)))) := by
  generalize shown_ : formatted vg (acquire vg
    ((firstColumn source request.sort selected).take (rowLimit topn))) = shown
  have columns := request.columns_read
  have metrics := mapM_ofInstruction columns
  have extra : getExtraMetrics source.toMetricSource request.metrics shown
      (columnsFrom request.iv request.iv.length 0) =
        some (request.columns.any fun column => column.reduction.isSome,
          [] :: allValues source.toMetricSource (shown.map Prod.fst) .start request.columns) := by
    cases instructions : columnsFrom request.iv request.iv.length 0 with
    | nil =>
      rw [instructions] at columns
      cases columns
    | cons vinst rest =>
      rw [instructions, List.mapM_cons] at metrics
      obtain ⟨column, -, metrics⟩ := Option.bind_eq_some_iff.mp metrics
      obtain ⟨others, behind, metrics⟩ := Option.bind_eq_some_iff.mp metrics
      obtain ⟨-, rfl⟩ := List.cons.inj (Option.some.inj metrics)
      rw [getExtraMetrics, behind]
      rfl
  simp only [genericView, request.columns_read, request.sort_read, request.total_read, shown_,
    extra, Option.bind_eq_bind, Option.bind_some, Option.some.injEq]
  refine List.map_congr_left fun item member => ?_
  rw [Request.row, Row.mk.injEq]
  refine ⟨rowFrom_eq_iff.mpr fun j column at_ => ?_, rfl⟩
  rw [Nat.zero_add, metricCell_eq]
  intro later
  obtain ⟨k, rfl⟩ := Nat.exists_eq_succ_of_ne_zero later
  have behind : request.columns[k]? = some column := by
    rw [List.getElem?_cons_succ] at at_
    rw [Request.columns, List.getElem?_map, at_]
    rfl
  obtain ⟨held, there, shared⟩ :=
    lookup_allValues source.toMetricSource (shown.map Prod.fst) behind
  rw [List.getD_eq_getElem?_getD, there, Option.getD_some, shared item.1 (List.mem_map_of_mem member)]
  rfl

omit [DecidableEq Object] [LinearOrder Amount] [Add Amount] in
theorem formatted_acquire (vg : ViewGranularity) (items : List (Item Object Amount)) :
    formatted vg (acquire vg items) = if vg = .loops then [] else items := by
  cases vg <;> rfl

omit [DecidableEq Object] [LinearOrder Amount] [Add Amount] in
theorem rank_eq_iff {one other : Item Object Amount} : rank one = rank other ↔ one.2 = other.2 := by
  rw [rank, rank]
  cases one.2 <;> cases other.2 <;> simp

theorem rowLimit_pos (topn : Nat) : 0 < rowLimit topn := by
  rw [rowLimit]
  split
  · decide
  · omega

omit [DecidableEq Object] in
variable (source) in
theorem top_firstColumn_iff (sort : Column Metric) (selected : List Object) (topn : Nat) :
    Top rank (rowLimit topn) (valuedItems source sort selected)
        ((firstColumn source sort selected).take (rowLimit topn)) ↔
      (sortAscending sort = true → ∀ one ∈ valuedItems source sort selected,
        ∀ other ∈ valuedItems source sort selected, one.2 = other.2) := by
  rw [firstColumn]
  by_cases ascending : sortAscending sort = true
  · rw [if_pos ascending, Ranking.top_take_ascending_iff source.sorting (rowLimit_pos topn)]
    simp only [rank_eq_iff, ascending, true_implies]
  · rw [if_neg ascending]
    exact iff_of_true (Ranking.top_take_descending source.sorting _ _) fun is => absurd is ascending

omit [DecidableEq Object] in
variable (source) in
theorem valuedItems_nodup (sort : Column Metric) (selected : List Object) :
    ((valuedItems source sort selected).map Prod.fst).Nodup := by
  have columnNodup : ((columnItems source selected sort).map Prod.fst).Nodup := by
    cases sort with
    | other => exact List.nodup_nil
    | metric metric => exact source.metric_nodup metric selected
    | byThread metric threadIdentifier reduction =>
      rw [columnItems, getReducedMaxMinIdxAvg]
      split
      · exact List.nodup_nil
      · split
        · exact (Individual.nodup _).sublist (EntryMap.keys_filterMap _ _)
        · exact List.nodup_nil
  rw [valuedItems]
  split
  · exact List.nodup_nil
  · exact columnNodup.sublist (List.filter_sublist.map _)

variable {selected : List Object}

omit [DecidableEq Object] in
theorem firstColumn_nil {sort : Column Metric}
    (nothing : valuedItems source sort selected = []) : firstColumn source sort selected = [] := by
  rw [firstColumn, nothing]
  split <;> exact (source.sorting.perm _ []).eq_nil

omit [DecidableEq Object] in
theorem firstColumn_subset {sort : Column Metric} :
    firstColumn source sort selected ⊆ valuedItems source sort selected := by
  rw [firstColumn]
  split <;> exact (source.sorting.perm _ _).subset

theorem row_eq_iff {request : Request source Value} {objects : List Object} :
    request.row (request.shared objects) item = request.row (Request.own source objects) item ↔
      ∀ i column, request.columns[i]? = some column →
        extraCell source (request.shared objects item.1 (i + 1) column) column =
          extraCell source (Request.own source objects item.1 (i + 1) column) column := by
  rw [Request.row, Request.row, Row.mk.injEq, rowFrom_eq_iff]
  simp only [Nat.zero_add, metricCell_eq, and_true]
  constructor
  · intro same i column at_
    rw [Request.columns, List.getElem?_map] at at_
    obtain ⟨read, there, rfl⟩ := Option.map_eq_some_iff.mp at_
    cases read with
    | percent metric => rfl
    | shown column => exact same (i + 1) column there (Nat.succ_ne_zero i)
  · intro same j column at_ later
    obtain ⟨i, rfl⟩ := Nat.exists_eq_succ_of_ne_zero later
    rw [List.getElem?_cons_succ] at at_
    exact same i column (by rw [Request.columns, List.getElem?_map, at_]; rfl)

/-- The view shows what it is to show, if and only if it shows no loops, does not sort by an index
and shares no reduction between columns; or where that makes no difference. -/
theorem genericView_shows_iff (request : Request source Value) (vg : ViewGranularity)
    (selected : List Object) (topn : Nat) :
    request.Shows vg selected topn ↔ request.Agrees vg selected topn := by
  have nodup := valuedItems_nodup source request.sort selected
  have order := top_firstColumn_iff source request.sort selected topn
  have none_ : valuedItems source request.sort selected = [] →
      firstColumn source request.sort selected = [] := firstColumn_nil
  rw [Request.Shows, genericView_eq, formatted_acquire]
  constructor
  · rintro ⟨shown, top, view⟩
    generalize listed : (if vg = .loops then [] else
      (firstColumn source request.sort selected).take (rowLimit topn)) = items at view
    have rows := Option.some.inj view
    have within : items ⊆ valuedItems source request.sort selected := by
      intro item member
      rw [← listed] at member
      split at member
      · cases member
      · exact firstColumn_subset (List.mem_of_mem_take member)
    have objects : items.map Prod.fst = shown.map Prod.fst := by
      have both := congrArg (List.map Row.object) rows
      rw [List.map_map, List.map_map] at both
      exact both
    obtain rfl := EntryMap.eq_of_keys nodup within top.from_items.subset objects
    by_cases loops : vg = .loops
    · rw [if_pos loops] at listed
      subst listed
      have empty : valuedItems source request.sort selected = [] := by
        have length := top.length
        have limit := rowLimit_pos topn
        rw [List.length_nil] at length
        exact List.length_eq_zero_iff.mp (by omega)
      refine ⟨fun _ => empty, fun _ one member => ?_, fun i column at_ object member => ?_⟩
      · rw [empty] at member
        cases member
      · rw [Request.leading, none_ empty, List.take_nil] at member
        cases member
    · rw [if_neg loops] at listed
      subst listed
      refine ⟨fun are => absurd are loops, order.mp top, fun i column at_ object member => ?_⟩
      obtain ⟨item, isShown, rfl⟩ := List.mem_map.mp member
      exact row_eq_iff.mp (List.map_inj_left.mp rows item isShown) i column at_
  · intro agrees
    have items : (if vg = .loops then [] else
        (firstColumn source request.sort selected).take (rowLimit topn)) =
          (firstColumn source request.sort selected).take (rowLimit topn) := by
      split
      · rename_i loops
        rw [none_ (agrees.loops loops), List.take_nil]
      · rfl
    rw [items]
    refine ⟨_, order.mpr agrees.ascending, congrArg some (List.map_congr_left fun item member => ?_)⟩
    exact row_eq_iff.mpr fun i column at_ =>
      agrees.shared i column at_ item.1 (List.mem_map_of_mem member)

end

def timedLoop : ViewSource Nat Unit Nat Nat Nat where
  toMetricSource := twoRanks
  initCollectorMetric _ := some (.amount 0)
  getObjectMetric _ _ := some (.amount 5)
  getTotalMetric _ := some (.amount 10)
  calculatePercent _ _ := some (.percent 50)
  isZero value := value = 0
  suppressUnusedElements := true
  sorting := Ranking.mergeSorting
  metric_nodup _ _ := List.nodup_singleton 7

def timeOnly : Request timedLoop Unit where
  metrics := [0]
  iv := [displayTime]
  first := .shown (.metric 0)
  extra := []
  sort := .metric 0
  total := none
  percentofcolumn := -1
  columns_read := rfl
  sort_read := rfl
  total_read := rfl

theorem genericView_loops : ¬ timeOnly.Shows .loops [7] 0 := by
  rintro ⟨shown, top, view⟩
  rw [genericView_eq, formatted_acquire, if_pos rfl, List.map_nil, Option.some.injEq] at view
  obtain rfl := List.map_eq_nil_iff.mp view.symm
  have length := top.length
  have one : (valuedItems timedLoop timeOnly.sort [7]).length = 1 := rfl
  rw [one] at length
  cases length

end OpenSpeedShop.StatsView
