import OpenSpeedShop.Cli.CallBack
import OpenSpeedShop.Framework.CompressDatabaseCore
import OpenSpeedShop.Library.WeakOrder
import Mathlib.Data.String.Basic

/-!
The predicates that order functions, statements and loops across experiment
databases, and the attributes that they read.
-/

namespace OpenSpeedShop

open Fallible

namespace Queries

inductive Failure
  | assertion
  | entryNotUnique (table entry : String)
  | entryNotFound (table entry : String)
  | other
deriving DecidableEq

/-- The open databases, what the statement cache finds at the head of a loop, and
`OPENSS_LESS_RESTRICTIVE_COMPARISONS`. -/
structure Environment where
  databases : DatabasePtr → ExperimentTables
  getDefinitions : Entry → Except Failure (Finset Entry)
  lessRestrictive : Bool

namespace Environment

variable (environment : Environment)

def onlyPath (referenced : String) (paths : List String) : Except Failure String := do
  let path ← paths.foldlM (fun path next =>
    if path ≠ "" then throw (.entryNotUnique "Files" referenced) else return next) ""
  if path = "" then throw (.entryNotFound "Files" referenced)
  return path

def pathsOf (tables : ExperimentTables) (file : Int32) : List String :=
  (tables.files.filter fun row => file.toInt = row.id).map FileRow.path

def linkedObjectPath : (linkedObject : Option Entry) → Except Failure String
  | none => throw .assertion
  | some linkedObject =>
    let tables := environment.databases linkedObject.dmDatabase
    onlyPath "<LinkedObjects-Referenced>"
      ((tables.linkedObjects.filter fun row => row.id = linkedObject.dmEntry).flatMap
        fun row => pathsOf tables row.file)

def getLinkedObject {Columns : Type} (select : SymbolTables → ObjectTables Columns)
    (object : Entry) : Option Entry :=
  let rows := (select (environment.databases object.dmDatabase).toSymbolTables).objects
  (rows.filter fun row => row.id = object.dmEntry).getLast?.map
    fun row => ⟨object.dmDatabase, row.linkedObject.toInt⟩

def functionName (function : Entry) : String :=
  Function.getMangledName (fun database => (environment.databases database).toSymbolTables) function

def functionObject (function : Entry) : Except Failure String :=
  environment.linkedObjectPath (environment.getLinkedObject SymbolTables.functions function)

def statementLine (statement : Entry) : Int :=
  Statement.getLine (fun database => (environment.databases database).toSymbolTables) statement

def statementColumn (statement : Entry) : Int :=
  Statement.getColumn (fun database => (environment.databases database).toSymbolTables) statement

def statementPath (statement : Entry) : Except Failure String :=
  let tables := environment.databases statement.dmDatabase
  onlyPath "<Statements-Referenced>"
    ((tables.statements.objects.filter fun row => row.id = statement.dmEntry).flatMap
      fun row => pathsOf tables row.columns.file)

def statementObject (statement : Entry) : Except Failure String :=
  environment.linkedObjectPath (environment.getLinkedObject SymbolTables.statements statement)

def compareFunctions (lhs rhs : Entry) : Except Failure Bool :=
  if environment.functionName lhs < environment.functionName rhs then return true
  else if environment.functionName lhs > environment.functionName rhs then return false
  else if environment.lessRestrictive then return false
  else do
    let left ← environment.functionObject lhs
    let right ← environment.functionObject rhs
    return left < right

def compareStatements (lhs rhs : Entry) : Except Failure Bool :=
  if environment.statementLine lhs < environment.statementLine rhs then return true
  else if environment.statementLine lhs > environment.statementLine rhs then return false
  else if environment.statementColumn lhs < environment.statementColumn rhs then return true
  else if environment.statementColumn lhs > environment.statementColumn rhs then return false
  else if environment.statementLine lhs ≠ 0 ∧ environment.statementLine rhs ≠ 0 ∧
      environment.lessRestrictive then return false
  else do
    let left ← environment.statementPath lhs
    let right ← environment.statementPath rhs
    if left < right then return true
    else if left > right then return false
    else do
      let left ← environment.statementObject lhs
      let right ← environment.statementObject rhs
      return left < right

def compareLoops (lhs rhs : Entry) : Except Failure Bool := do
  let lhsStmt ← environment.getDefinitions lhs
  let rhsStmt ← environment.getDefinitions rhs
  return lhsStmt = rhsStmt

end Environment

end Queries

/-!
The predicates for functions and for statements are strict weak orderings; the
one for loops takes every loop to precede itself.
-/

namespace Queries

inductive Compare
  | functions
  | statements
  | loops
deriving DecidableEq

namespace Compare

variable (environment : Environment)

def call : Compare → Entry → Entry → Except Failure Bool
  | functions => environment.compareFunctions
  | statements => environment.compareStatements
  | loops => environment.compareLoops

def Readable : Compare → Entry → Prop
  | functions, function => ∃ object, environment.functionObject function = .ok object
  | statements, statement => (∃ path, environment.statementPath statement = .ok path) ∧
      ∃ object, environment.statementObject statement = .ok object
  | loops, loop => ∃ definitions, environment.getDefinitions loop = .ok definitions

def SameAttributes : Compare → Entry → Entry → Prop
  | functions, lhs, rhs => environment.functionName lhs = environment.functionName rhs ∧
      (environment.lessRestrictive = true ∨ environment.functionObject lhs = environment.functionObject rhs)
  | statements, lhs, rhs =>
    environment.statementLine lhs = environment.statementLine rhs ∧
    environment.statementColumn lhs = environment.statementColumn rhs ∧
    (environment.statementLine lhs ≠ 0 ∧ environment.lessRestrictive = true ∨
      environment.statementPath lhs = environment.statementPath rhs ∧
      environment.statementObject lhs = environment.statementObject rhs)
  | loops, lhs, rhs => environment.getDefinitions lhs = environment.getDefinitions rhs

abbrev Comparable (compare : Compare) : Type :=
  { object : Entry // compare.Readable environment object }

/-- The predicate has an answer for all objects whose attributes can be read, and orders them:
its classes are those of equal attributes, and a map has one entry for each of them. -/
def OrdersObjects (compare : Compare) : Prop :=
  ∃ less : compare.Comparable environment → compare.Comparable environment → Bool,
    (∀ lhs rhs, compare.call environment lhs.1 rhs.1 = .ok (less lhs rhs)) ∧
    OrderedMap.StrictWeak less ∧
    (∀ lhs rhs, OrderedMap.Incomparable less lhs rhs ↔ compare.SameAttributes environment lhs.1 rhs.1) ∧
    ∀ (Value : Type) (pairs : List (compare.Comparable environment × Value)),
      OrderedMap.OnePerClass less pairs (OrderedMap.ofPairs less pairs)

variable {environment}

theorem ordersObjects_of_rank {compare : Compare} {Rank : Type} [LinearOrder Rank]
    (rank : compare.Comparable environment → Rank)
    (answers : ∀ lhs rhs, compare.call environment lhs.1 rhs.1 = .ok (decide (rank lhs < rank rhs)))
    (same : ∀ lhs rhs, rank lhs = rank rhs ↔ compare.SameAttributes environment lhs.1 rhs.1) :
    compare.OrdersObjects environment := by
  have order : OrderedMap.StrictWeak fun lhs rhs => decide (rank lhs < rank rhs) :=
    OrderedMap.StrictWeak.of_rank fun _ _ => rfl
  refine ⟨fun lhs rhs => decide (rank lhs < rank rhs), answers, order, fun lhs rhs => ?_,
    fun _ pairs => order.onePerClass pairs⟩
  exact (OrderedMap.incomparable_iff_of_rank (fun _ _ => rfl) lhs rhs).trans (same lhs rhs)

theorem cascade {First Rest : Type} [LinearOrder First] [LinearOrder Rest] {lhs rhs : First}
    {left right : Rest} {follows : Except Failure Bool}
    (equal : lhs = rhs → follows = .ok (decide (left < right))) :
    (if lhs < rhs then return true else if lhs > rhs then return false else follows) =
      .ok (decide (toLex (lhs, left) < toLex (rhs, right))) := by
  rcases lt_trichotomy lhs rhs with below | same | above
  · simp only [below, if_true, Prod.Lex.toLex_lt_toLex, true_or, decide_true]
    rfl
  · simp [same, equal same, Prod.Lex.toLex_lt_toLex]
  · have notBelow := not_lt.mpr above.le
    simp only [notBelow, above, if_true, if_false, Prod.Lex.toLex_lt_toLex, above.ne',
      false_and, or_self, decide_false]
    rfl

def rankOf (compared : Bool) (value : Except Failure String) : String :=
  if compared then value.toOption.getD "" else ""

def functionRank (environment : Environment) (function : Entry) : String ×ₗ String :=
  toLex (environment.functionName function,
    rankOf (!environment.lessRestrictive) (environment.functionObject function))

theorem compareFunctions_eq {lhs rhs : Entry} (left : functions.Readable environment lhs)
    (right : functions.Readable environment rhs) : environment.compareFunctions lhs rhs =
      .ok (decide (functionRank environment lhs < functionRank environment rhs)) := by
  obtain ⟨left, leftRead⟩ := left
  obtain ⟨right, rightRead⟩ := right
  refine cascade fun _ => ?_
  cases environment.lessRestrictive with
  | true => rfl
  | false =>
    simp only [rankOf, leftRead, rightRead]
    rfl

theorem functions_ordered : functions.OrdersObjects environment := by
  refine ordersObjects_of_rank (fun function => functionRank environment function.1) ?_ ?_
  · rintro ⟨lhs, left⟩ ⟨rhs, right⟩
    exact compareFunctions_eq left right
  · rintro ⟨lhs, left, leftRead⟩ ⟨rhs, right, rightRead⟩
    cases setting : environment.lessRestrictive <;>
      simp [functionRank, rankOf, SameAttributes, setting, leftRead, rightRead, Except.toOption]

def comparesPaths (environment : Environment) (statement : Entry) : Bool :=
  !(environment.statementLine statement ≠ 0 && environment.lessRestrictive)

def statementRank (environment : Environment) (statement : Entry) : Int ×ₗ Int ×ₗ String ×ₗ String :=
  let compared := comparesPaths environment statement
  toLex (environment.statementLine statement, toLex (environment.statementColumn statement,
    toLex (rankOf compared (environment.statementPath statement),
      rankOf compared (environment.statementObject statement))))

theorem comparesPaths_eq_false {statement : Entry} : comparesPaths environment statement = false ↔
      environment.statementLine statement ≠ 0 ∧ environment.lessRestrictive = true := by
  simp [comparesPaths]

theorem comparesPaths_of_line_eq {lhs rhs : Entry}
    (line : environment.statementLine lhs = environment.statementLine rhs) :
    comparesPaths environment lhs = comparesPaths environment rhs := by
  simp [comparesPaths, line]

theorem statements_ordered : statements.OrdersObjects environment := by
  refine ordersObjects_of_rank (fun statement => statementRank environment statement.1) ?_ ?_
  · rintro ⟨lhs, ⟨leftPath, leftPathRead⟩, leftObject, leftRead⟩
      ⟨rhs, ⟨rightPath, rightPathRead⟩, rightObject, rightRead⟩
    refine cascade fun line => cascade fun _ => ?_
    have both := comparesPaths_of_line_eq line
    cases compared : comparesPaths environment rhs with
    | false =>
      have only := comparesPaths_eq_false.mp compared
      rw [if_pos ⟨line ▸ only.1, only⟩, both, compared]
      rfl
    | true =>
      have paths : ¬ (environment.statementLine lhs ≠ 0 ∧ environment.statementLine rhs ≠ 0 ∧
          environment.lessRestrictive = true) := by
        rintro ⟨-, only⟩
        rw [comparesPaths_eq_false.mpr only] at compared
        cases compared
      rw [if_neg paths, both, compared]
      simp only [rankOf, leftPathRead, rightPathRead, ok_bind, if_true, Except.toOption, Option.getD_some]
      refine cascade fun _ => ?_
      rw [leftRead, rightRead]
      rfl
  · rintro ⟨lhs, ⟨leftPath, leftPathRead⟩, leftObject, leftRead⟩
      ⟨rhs, ⟨rightPath, rightPathRead⟩, rightObject, rightRead⟩
    simp only [statementRank, toLex_inj, Prod.mk.injEq, SameAttributes]
    refine and_congr_right fun line => and_congr_right fun _ => ?_
    have both := comparesPaths_of_line_eq line
    cases compared : comparesPaths environment lhs with
    | false =>
      have only := comparesPaths_eq_false.mp compared
      simp [← both, compared, rankOf, only]
    | true =>
      have paths : ¬ (environment.statementLine lhs ≠ 0 ∧ environment.lessRestrictive = true) := by
        rw [← comparesPaths_eq_false, compared]
        decide
      simp [← both, compared, rankOf, paths, leftPathRead, rightPathRead, leftRead, rightRead, Except.toOption]

theorem loops_self {loop : Entry} {definitions : Finset Entry}
    (read : environment.getDefinitions loop = .ok definitions) :
    environment.compareLoops loop loop = .ok true := by
  simp only [Environment.compareLoops, read, ok_bind, decide_true]
  rfl

/-- Functions and statements are ordered under both settings, loops only where there is none. -/
theorem ordersObjects_iff (environment : Environment) (compare : Compare) :
    compare.OrdersObjects environment ↔ (compare = loops → ∀ loop, ¬ compare.Readable environment loop) := by
  constructor
  · rintro ⟨less, answers, order, -⟩ rfl loop readable
    obtain ⟨definitions, read⟩ := readable
    have itself := answers ⟨loop, definitions, read⟩ ⟨loop, definitions, read⟩
    rw [order.irrefl] at itself
    cases itself.symm.trans (loops_self read)
  · intro none
    cases compare with
    | functions => exact functions_ordered
    | statements => exact statements_ordered
    | loops =>
      have absent : ∀ loop : loops.Comparable environment, False :=
        fun loop => none rfl loop.1 loop.2
      refine ordersObjects_of_rank (fun loop => show Nat from (absent loop).elim) ?_ ?_
      · exact fun lhs => (absent lhs).elim
      · exact fun lhs => (absent lhs).elim

def oneLoop : Environment where
  databases _ := {
    addressSpaces := []
    functions := ⟨[], []⟩
    loops := ⟨[⟨1, 1, OffsetBinary.encode 16⟩], []⟩
    files := [⟨1, "/bin/a.out"⟩, ⟨2, "a.c"⟩]
    statements := ⟨[⟨1, 1, ⟨2, 10, 1⟩⟩], []⟩
    threads := [1]
    linkedObjects := [⟨1, 1, true⟩] }
  getDefinitions loop := .ok {⟨loop.dmDatabase, 1⟩}
  lessRestrictive := false

theorem oneLoop_not_ordered : ¬ loops.OrdersObjects oneLoop := by
  rw [ordersObjects_iff]
  intro none
  exact none rfl ⟨1, 1⟩ ⟨_, rfl⟩

end Compare

end Queries

end OpenSpeedShop
