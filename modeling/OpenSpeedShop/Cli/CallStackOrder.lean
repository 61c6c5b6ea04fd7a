import OpenSpeedShop.Library.ScannedOrder
import OpenSpeedShop.Queries.Compare
import Mathlib.Data.Sum.Order

/-!
The comparisons of the results of a view that a call stack consists of, and of
call stacks. A cast of a result to another class than its own is a failure.
-/

namespace OpenSpeedShop

open Fallible
open Queries.Compare (functionRank compareFunctions_eq)

namespace CallStackOrder

inductive Result
  | address (value : UInt64)
  | uint (value : UInt64)
  | function (function : Entry) (line : Int)

structure Object where
  pointer : UInt64
  result : Result

abbrev CallStack := List Object

inductive Operand
  | single (object : Object)
  | callStack (entries : CallStack)

variable (environment : Queries.Environment)

def resultLT : Result → Result → Except Queries.Failure Bool
  | .address own, .address other => return own < other
  | .uint own, .uint other => return own < other
  | .function own _, .function other _ => environment.compareFunctions own other
  | .function .., _ => throw .assertion
  | _, _ => throw .other

def resultGT : Result → Result → Except Queries.Failure Bool
  | .address own, .address other => return own > other
  | .uint own, .uint other => return own > other
  | .function own ownLine, .function other otherLine => do
      if ← environment.compareFunctions other own then return true
      if ← environment.compareFunctions own other then return false
      return ownLine > otherLine
  | .function .., _ => throw .assertion
  | _, _ => throw .other

/-- `for(i = 0; i < lm; i++) if((*ls)[i]->LT((*rs)[i])) return true` -/
def anyPlace (compare : Result → Result → Except Queries.Failure Bool) :
    CallStack → CallStack → Except Queries.Failure Bool
  | own :: ls, other :: rs => do
      if ← compare own.result other.result then return true
      anyPlace compare ls rs
  | _, _ => return false

/-- What `LT` and `GT` do with two call stacks: both end with `return (ll < rl)`. -/
def scan (compare : Result → Result → Except Queries.Failure Bool) (ls rs : CallStack) :
    Except Queries.Failure Bool := do
  if ls = [] then throw .assertion
  if ← anyPlace compare ls rs then return true
  return ls.length < rs.length

def last (compare : Result → Result → Except Queries.Failure Bool) (ls : CallStack) (other : Object) :
    Except Queries.Failure Bool :=
  match ls.getLast? with
  | none => throw .assertion
  | some own => compare own.result other.result

def stackLT : CallStack → CallStack → Except Queries.Failure Bool := scan (resultLT environment)

def stackGT : CallStack → CallStack → Except Queries.Failure Bool := scan (resultGT environment)

def Operand.lt : Operand → Operand → Except Queries.Failure Bool
  | .single own, .single other => resultLT environment own.result other.result
  | .single own, .callStack rs =>
    match own.result, rs with
    | .uint _, [only] => return own.pointer < only.pointer
    | .function .., _ => last (resultGT environment) rs own
    | _, _ => throw .other
  | .callStack ls, .single other => last (resultLT environment) ls other
  | .callStack ls, .callStack rs => stackLT environment ls rs

def Operand.gt : Operand → Operand → Except Queries.Failure Bool
  | .single own, .single other => resultGT environment own.result other.result
  | .single own, .callStack rs =>
    match own.result, rs with
    | .uint _, [only] => return own.pointer > only.pointer
    | .function .., _ => last (resultLT environment) rs own
    | _, _ => throw .other
  | .callStack ls, .single other => last (resultGT environment) ls other
  | .callStack ls, .callStack rs => stackGT environment ls rs

end CallStackOrder

/-!
The order of call stacks: the loops do not stop at a place where the own stack
is the greater one, and `GT` takes the shorter stack for the greater one.
-/

open Fallible ScannedOrder

namespace CallStackOrder

abbrev Key : Type := Nat ⊕ₗ Nat ⊕ₗ (String ×ₗ String)

def key (environment : Queries.Environment) : Result → Key
  | .address value => Sum.inlₗ value.toNat
  | .uint value => Sum.inrₗ (Sum.inlₗ value.toNat)
  | .function function _ => Sum.inrₗ (Sum.inrₗ (Queries.Compare.functionRank environment function))

def keys (environment : Queries.Environment) (stack : CallStack) : List Key :=
  stack.map fun entry => key environment entry.result

def Result.line : Result → Int
  | .function _ line => line
  | _ => 0

def Comparable (environment : Queries.Environment) : Result → Result → Prop
  | .address _, .address _ => True
  | .uint _, .uint _ => True
  | .function own _, .function other _ =>
    Queries.Compare.functions.Readable environment own ∧ Queries.Compare.functions.Readable environment other
  | _, _ => False

def ComparableStacks (environment : Queries.Environment) (own other : CallStack) : Prop :=
  ∀ pair ∈ own.zip other, Comparable environment pair.1.result pair.2.result

def LaterLine (environment : Queries.Environment) (own other : Result) : Prop :=
  key environment own = key environment other ∧ other.line < own.line

instance (environment : Queries.Environment) (own other : Result) :
    Decidable (LaterLine environment own other) :=
  inferInstanceAs (Decidable (_ ∧ _))

def Mirrored (environment : Queries.Environment) (own other : CallStack) : Prop :=
  (∃ pair ∈ own.zip other, key environment pair.2.result < key environment pair.1.result) ∨
    ((∃ pair ∈ own.zip other, LaterLine environment pair.1.result pair.2.result) ∨
      own.length < other.length ↔ other.length < own.length)

/-- The call stacks are ordered lexicographically, a proper prefix first, and `GT` is the
converse. -/
structure StrictlyOrdered (environment : Queries.Environment) (rows : Set CallStack) : Prop where
  irreflexive : ∀ stack ∈ rows, stackLT environment stack stack = .ok false
  asymmetric : ∀ own ∈ rows, ∀ other ∈ rows, stackLT environment own other = .ok true →
    stackLT environment other own = .ok false
  transitive : ∀ own ∈ rows, ∀ other ∈ rows, ∀ third ∈ rows,
    stackLT environment own other = .ok true → stackLT environment other third = .ok true →
      stackLT environment own third = .ok true
  lexicographic : ∀ own ∈ rows, ∀ other ∈ rows,
    stackLT environment own other = .ok (decide (keys environment own < keys environment other))
  converse : ∀ own ∈ rows, ∀ other ∈ rows, stackGT environment own other = stackLT environment other own

variable {environment : Queries.Environment} {own other : Result} {ls rs : CallStack}

theorem key_function_lt {function more : Entry} {line other : Int} :
    key environment (.function function line) < key environment (.function more other) ↔
      functionRank environment function < functionRank environment more := by
  simp [key]

theorem key_function_eq {function more : Entry} {line other : Int} :
    key environment (.function function line) = key environment (.function more other) ↔
      functionRank environment function = functionRank environment more := by
  simp [key]

theorem resultLT_eq (comparable : Comparable environment own other) :
    resultLT environment own other = .ok (decide (key environment own < key environment other)) := by
  cases own with
  | address value =>
    cases other with
    | address more => simp [resultLT, key, UInt64.lt_iff_toNat_lt, pure, Except.pure]
    | uint | function => exact comparable.elim
  | uint value =>
    cases other with
    | uint more => simp [resultLT, key, UInt64.lt_iff_toNat_lt, pure, Except.pure]
    | address | function => exact comparable.elim
  | function function line =>
    cases other with
    | address | uint => exact comparable.elim
    | function more _ =>
      rw [resultLT, compareFunctions_eq comparable.1 comparable.2]
      simp only [key_function_lt]

theorem resultGT_eq (comparable : Comparable environment own other) : resultGT environment own other =
      .ok (decide (key environment other < key environment own ∨ LaterLine environment own other)) := by
  cases own with
  | address value =>
    cases other with
    | address more =>
      simp [resultGT, key, LaterLine, Result.line, UInt64.lt_iff_toNat_lt, pure, Except.pure]
    | uint | function => exact comparable.elim
  | uint value =>
    cases other with
    | uint more =>
      simp [resultGT, key, LaterLine, Result.line, UInt64.lt_iff_toNat_lt, pure, Except.pure]
    | address | function => exact comparable.elim
  | function function line =>
    cases other with
    | address | uint => exact comparable.elim
    | function more other =>
      rw [resultGT, compareFunctions_eq comparable.2 comparable.1,
        compareFunctions_eq comparable.1 comparable.2]
      simp only [ok_bind, decide_eq_true_eq, LaterLine, key_function_lt, key_function_eq, Result.line]
      rcases lt_trichotomy (functionRank environment function)
        (functionRank environment more) with below | same | above
      · simp [below, below.not_gt, below.ne, pure, Except.pure]
      · simp [same, pure, Except.pure]
      · simp [above, pure, Except.pure]

variable {compare : Result → Result → Except Queries.Failure Bool} {holds : Result → Result → Bool}

theorem anyPlace_eq (answers : ∀ pair ∈ ls.zip rs, compare pair.1.result pair.2.result =
      .ok (holds pair.1.result pair.2.result)) :
    anyPlace compare ls rs = .ok ((ls.zip rs).any fun pair => holds pair.1.result pair.2.result) := by
  induction ls generalizing rs with
  | nil => rfl
  | cons own rest ih =>
    cases rs with
    | nil => rfl
    | cons other more =>
      have later := @ih more fun pair member => answers pair (List.mem_cons_of_mem _ member)
      rw [anyPlace, answers (own, other) List.mem_cons_self, later]
      simp only [ok_bind, List.zip_cons_cons, List.any_cons]
      cases holds own.result other.result <;> rfl

theorem scan_eq (nonempty : ls ≠ []) (answers : ∀ pair ∈ ls.zip rs, compare pair.1.result pair.2.result =
      .ok (holds pair.1.result pair.2.result)) :
    scan compare ls rs = .ok (((ls.zip rs).any fun pair => holds pair.1.result pair.2.result) ||
      decide (ls.length < rs.length)) := by
  rw [scan, if_neg nonempty, anyPlace_eq answers]
  cases (ls.zip rs).any fun pair => holds pair.1.result pair.2.result <;> rfl

section

variable (nonempty : ls ≠ []) (comparable : ComparableStacks environment ls rs)
include nonempty comparable

theorem stackLT_answers : ∃ answer, stackLT environment ls rs = .ok answer ∧
      (answer = true ↔ Scanned (keys environment ls) (keys environment rs)) := by
  have scanned := @scan_eq ls rs _
    (fun own other => decide (key environment own < key environment other)) nonempty
    fun pair member => resultLT_eq (comparable pair member)
  refine ⟨_, scanned, ?_⟩
  rw [Scanned, keys, keys, someLess_map, List.length_map, List.length_map]
  simp only [Bool.or_eq_true, List.any_eq_true, decide_eq_true_eq]

theorem stackGT_answers : ∃ answer, stackGT environment ls rs = .ok answer ∧
      (answer = true ↔ (SomeLess (keys environment rs) (keys environment ls) ∨
        ∃ pair ∈ ls.zip rs, LaterLine environment pair.1.result pair.2.result) ∨ ls.length < rs.length) := by
  have scanned := @scan_eq ls rs _ (fun own other => decide (key environment other <
      key environment own ∨ LaterLine environment own other)) nonempty
    fun pair member => resultGT_eq (comparable pair member)
  refine ⟨_, scanned, ?_⟩
  rw [keys, keys, someLess_map_swap]
  simp only [Bool.or_eq_true, List.any_eq_true, decide_eq_true_eq, and_or_left, exists_or]

theorem stackLT_lexicographic_iff :
    stackLT environment ls rs = .ok (decide (keys environment ls < keys environment rs)) ↔
      DecidedFirst (keys environment ls) (keys environment rs) := by
  obtain ⟨answer, answers, meaning⟩ := stackLT_answers nonempty comparable
  rw [← scanned_iff_lt, ← meaning, answers, Except.ok.injEq, Bool.eq_iff_iff, decide_eq_true_iff]

end

theorem stackGT_converse_iff (nonempty : ls ≠ []) (other : rs ≠ [])
    (comparable : ComparableStacks environment ls rs) (reversed : ComparableStacks environment rs ls) :
    stackGT environment ls rs = stackLT environment rs ls ↔ Mirrored environment ls rs := by
  obtain ⟨greater, greaterAnswers, greaterMeaning⟩ := stackGT_answers nonempty comparable
  obtain ⟨less, lessAnswers, lessMeaning⟩ := stackLT_answers other reversed
  rw [greaterAnswers, lessAnswers, Except.ok.injEq, Bool.eq_iff_iff, greaterMeaning, lessMeaning,
    Scanned, Mirrored, keys, keys, someLess_map_swap, List.length_map, List.length_map]
  generalize (∃ pair ∈ ls.zip rs, key environment pair.2.result < key environment pair.1.result) = someGreater
  generalize (∃ pair ∈ ls.zip rs, LaterLine environment pair.1.result pair.2.result) = someLine
  by_cases greater : someGreater
  · simp [greater]
  · simp [greater]

theorem strictlyOrdered_iff {rows : Set CallStack} (nonempty : ∀ stack ∈ rows, stack ≠ [])
    (comparable : ∀ own ∈ rows, ∀ other ∈ rows, ComparableStacks environment own other) :
    StrictlyOrdered environment rows ↔ ∀ own ∈ rows, ∀ other ∈ rows,
      DecidedFirst (keys environment own) (keys environment other) ∧ Mirrored environment own other := by
  constructor
  · intro ordered own ownRow other otherRow
    have decided := stackLT_lexicographic_iff (nonempty own ownRow) (comparable own ownRow other otherRow)
    have mirrored := stackGT_converse_iff (nonempty own ownRow) (nonempty other otherRow)
      (comparable own ownRow other otherRow) (comparable other otherRow own ownRow)
    exact ⟨decided.mp (ordered.lexicographic own ownRow other otherRow),
      mirrored.mp (ordered.converse own ownRow other otherRow)⟩
  · intro each
    have lexicographic : ∀ own ∈ rows, ∀ other ∈ rows, stackLT environment own other =
        .ok (decide (keys environment own < keys environment other)) := by
      intro own ownRow other otherRow
      rw [stackLT_lexicographic_iff (nonempty own ownRow) (comparable own ownRow other otherRow)]
      exact (each own ownRow other otherRow).1
    refine ⟨fun stack row => ?_, ?_, ?_, lexicographic, ?_⟩
    · rw [lexicographic stack row stack row, decide_eq_false (lt_irrefl _)]
    · intro own ownRow other otherRow less
      rw [lexicographic own ownRow other otherRow, Except.ok.injEq, decide_eq_true_iff] at less
      rw [lexicographic other otherRow own ownRow, decide_eq_false less.not_gt]
    · intro own ownRow other otherRow third thirdRow below above
      rw [lexicographic own ownRow other otherRow, Except.ok.injEq, decide_eq_true_iff] at below
      rw [lexicographic other otherRow third thirdRow, Except.ok.injEq, decide_eq_true_iff] at above
      rw [lexicographic own ownRow third thirdRow, decide_eq_true (below.trans above)]
    · intro own ownRow other otherRow
      rw [stackGT_converse_iff (nonempty own ownRow) (nonempty other otherRow)
        (comparable own ownRow other otherRow) (comparable other otherRow own ownRow)]
      exact (each own ownRow other otherRow).2

def ByValue (environment : Queries.Environment) (own other : Object) (value entry : UInt64) : Prop :=
  (Operand.single own).lt environment (.callStack [other]) = .ok (decide (value < entry)) ∧
    (Operand.single own).gt environment (.callStack [other]) = .ok (decide (value > entry))

theorem byValue_iff {own other : UInt64} {value entry : UInt64} :
    ByValue environment ⟨own, .uint value⟩ ⟨other, .uint entry⟩ value entry ↔
      (own < other ↔ value < entry) ∧ (own > other ↔ value > entry) := by
  simp [ByValue, Operand.lt, Operand.gt, pure, Except.pure]

/-- What the order of call stacks needs, and what the comparison with a single value needs. -/
theorem callStacks_compare_iff (environment : Queries.Environment) :
    (∀ rows : Set CallStack, (∀ stack ∈ rows, stack ≠ []) →
      (∀ own ∈ rows, ∀ other ∈ rows, ComparableStacks environment own other) →
      (StrictlyOrdered environment rows ↔ ∀ own ∈ rows, ∀ other ∈ rows,
        DecidedFirst (keys environment own) (keys environment other) ∧ Mirrored environment own other)) ∧
    ∀ own other value entry : UInt64,
      ByValue environment ⟨own, .uint value⟩ ⟨other, .uint entry⟩ value entry ↔
        (own < other ↔ value < entry) ∧ (own > other ↔ value > entry) :=
  ⟨fun _ nonempty comparable => strictlyOrdered_iff nonempty comparable, fun _ _ _ _ => byValue_iff⟩

def uints (values : List UInt64) : CallStack := values.map fun value => ⟨value, .uint value⟩

theorem comparable_uints (environment : Queries.Environment) (own other : List UInt64) :
    ComparableStacks environment (uints own) (uints other) := by
  intro pair member
  rw [uints, uints, List.zip_map] at member
  obtain ⟨values, -, rfl⟩ := List.mem_map.mp member
  exact trivial

theorem callStacks_compare_two : StrictlyOrdered Queries.Compare.oneLoop {uints [1], uints [2]} := by
  refine ((callStacks_compare_iff Queries.Compare.oneLoop).1 _ ?_ ?_).mpr ?_
  · rintro stack (rfl | rfl) <;> simp [uints]
  · rintro own (rfl | rfl) other (rfl | rfl) <;> exact comparable_uints _ _ _
  · rintro own (rfl | rfl) other (rfl | rfl) <;>
      simp [DecidedFirst, difference, Mirrored, LaterLine, Result.line, keys, key, uints]

theorem precede_each_other : ¬ ∀ (environment : Queries.Environment) (rows : Set CallStack),
    (∀ stack ∈ rows, stack ≠ []) →
      (∀ own ∈ rows, ∀ other ∈ rows, ComparableStacks environment own other) →
        StrictlyOrdered environment rows := by
  intro always
  have ordered := always Queries.Compare.oneLoop {uints [1, 2], uints [2, 1]}
    (by rintro stack (rfl | rfl) <;> simp [uints])
    (by rintro own (rfl | rfl) other (rfl | rfl) <;> exact comparable_uints _ _ _)
  have first : stackLT Queries.Compare.oneLoop (uints [1, 2]) (uints [2, 1]) = .ok true := by
    decide
  have second : stackLT Queries.Compare.oneLoop (uints [2, 1]) (uints [1, 2]) = .ok true := by
    decide
  have not := ordered.asymmetric _ (.inl rfl) _ (.inr rfl) first
  rw [second] at not
  cases not

end CallStackOrder

end OpenSpeedShop
