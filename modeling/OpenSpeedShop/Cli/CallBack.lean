import OpenSpeedShop.Framework.ThreadLookupCore
import OpenSpeedShop.Library.Memo
import Mathlib.Data.Prod.Lex

/-!
Call stacks for the views: every frame of a stack trace becomes a function, with its statements
or without, or an address. Entries are remembered across traces.
-/

namespace OpenSpeedShop

structure StackTrace where
  dmThread : Entry
  dmTime : Time
  addresses : List Address

namespace StackTrace

variable (databases : DatabasePtr → SymbolTables) (st : StackTrace)

def getFunctionAt (address : Address) : Result (Option Entry) :=
  Thread.getFunctionAt databases st.dmThread address st.dmTime

def getStatementsAt (address : Address) : Result (Finset Entry) :=
  Thread.getStatementsAt databases st.dmThread address st.dmTime

end StackTrace

def Statement.columnsOf (databases : DatabasePtr → SymbolTables) (statement : Entry) :
    Option StatementColumns :=
  let rows := (databases statement.dmDatabase).statements.objects
  (rows.filter fun row => row.id = statement.dmEntry).getLast?.map ObjectRow.columns

def Statement.getLine (databases : DatabasePtr → SymbolTables) (statement : Entry) : Int :=
  (Statement.columnsOf databases statement).elim 0 fun columns => columns.line.toInt

def Statement.getColumn (databases : DatabasePtr → SymbolTables) (statement : Entry) : Int :=
  (Statement.columnsOf databases statement).elim 0 fun columns => columns.column.toInt

def Statement.first (statements : Finset Entry) : Option Entry :=
  (statements.image fun entry => toLex (entry.dmDatabase, entry.dmEntry)).min.map
    fun place => ⟨(ofLex place).1, (ofLex place).2⟩

namespace CallBack

inductive CommandResult
  | function (entry : Entry) (statements : Finset Entry) (line column : Int) (valueIsID : Bool)
  | address (value : Address) (valueIsID : Bool)
deriving DecidableEq

/-- `CommandResult_Function (Function F, std::set<Statement>& st)` -/
def CommandResult.ofFunction (databases : DatabasePtr → SymbolTables) (entry : Entry)
    (statements : Finset Entry) : CommandResult :=
  match Statement.first statements with
  | some first => .function entry statements (Statement.getLine databases first)
      (Statement.getColumn databases first) false
  | none => .function entry statements 0 0 false

def CommandResult.copy : CommandResult → CommandResult
  | function entry statements line column valueIsID =>
    function entry statements line column (if valueIsID then true else false)
  | address value valueIsID => address value (if valueIsID then true else false)

def buildCallBackEntry (databases : DatabasePtr → SymbolTables) (st : StackTrace)
    (address : Address) (addStmts : Bool) : Result CommandResult := do
  match ← st.getFunctionAt databases address with
  | some entry =>
    if addStmts then do
      let statements ← st.getStatementsAt databases address
      return CommandResult.ofFunction databases entry statements
    else return .function entry ∅ 0 0 false
  | none => return .address address false

structure Call where
  traceBackOrder : Bool
  addStmts : Bool
  st : StackTrace

def Call.frames (call : Call) : List Address :=
  if call.traceBackOrder then call.st.addresses else call.st.addresses.reverse

def constructCallBack (databases : DatabasePtr → SymbolTables) (call : Call) : Result (List CommandResult) :=
  call.frames.mapM fun address => buildCallBackEntry databases call.st address call.addStmts

abbrev KnownTraces := Memo.Known Address CommandResult

def findOrBuild (databases : DatabasePtr → SymbolTables) (call : Call) (knownTraces : KnownTraces)
    (address : Address) : Result (CommandResult × KnownTraces) :=
  match knownTraces address with
  | some entry => return (entry, knownTraces)
  | none => do
      let entry ← buildCallBackEntry databases call.st address call.addStmts
      return (entry, Function.update knownTraces address (some entry))

def pushAll (databases : DatabasePtr → SymbolTables) (call : Call) :
    List Address → KnownTraces → Result (List CommandResult × KnownTraces)
  | [], knownTraces => return ([], knownTraces)
  | address :: rest, knownTraces => do
      let (entry, knownTraces) ← findOrBuild databases call knownTraces address
      let (callStack, knownTraces) ← pushAll databases call rest knownTraces
      return (entry.copy :: callStack, knownTraces)

def constructCallBackKnown (databases : DatabasePtr → SymbolTables) (call : Call)
    (knownTraces : KnownTraces) : Result (List CommandResult × KnownTraces) :=
  pushAll databases call call.frames knownTraces

def constructAll (databases : DatabasePtr → SymbolTables) (calls : List Call) :
    Result (List (List CommandResult)) :=
  calls.mapM (constructCallBack databases)

def constructAllKnown (databases : DatabasePtr → SymbolTables) :
    List Call → KnownTraces → Result (List (List CommandResult) × KnownTraces)
  | [], knownTraces => return ([], knownTraces)
  | call :: rest, knownTraces => do
      let (callStack, knownTraces) ← constructCallBackKnown databases call knownTraces
      let (callStacks, knownTraces) ← constructAllKnown databases rest knownTraces
      return (callStack :: callStacks, knownTraces)

end CallBack

/-!
The remembered call stacks are those of the traces themselves when an address means
the same in all the threads and times of the traces.
-/

namespace CallBack

open Fallible

theorem copy_eq (entry : CommandResult) : entry.copy = entry := by
  cases entry with
  | function entry statements line column valueIsID => cases valueIsID <;> rfl
  | address value valueIsID => cases valueIsID <;> rfl

def build (databases : DatabasePtr → SymbolTables) (frame : Call × Address) : Result CommandResult :=
  buildCallBackEntry databases frame.1.st frame.2 frame.1.addStmts

def Call.queries (call : Call) : List (Call × Address) := call.frames.map fun address => (call, address)

section

variable (databases : DatabasePtr → SymbolTables)

theorem pushAll_eq (call : Call) (addresses : List Address) : ∀ knownTraces : KnownTraces,
    pushAll databases call addresses knownTraces = Memo.askAll Prod.snd (build databases)
      (addresses.map fun address => (call, address)) knownTraces := by
  induction addresses with
  | nil => exact fun _ => rfl
  | cons address rest ih =>
    intro knownTraces
    have asked : findOrBuild databases call knownTraces address =
        Memo.ask Prod.snd (build databases) knownTraces (call, address) := by
      rw [findOrBuild, Memo.ask]
      cases knownTraces address <;> rfl
    simp only [pushAll, List.map_cons, Memo.askAll, asked, ih, copy_eq]

theorem constructAllKnown_eq (calls : List Call) : ∀ knownTraces : KnownTraces,
    constructAllKnown databases calls knownTraces = Memo.askBatches Prod.snd (build databases)
      (calls.map Call.queries) knownTraces := by
  induction calls with
  | nil => exact fun _ => rfl
  | cons call rest ih =>
    intro knownTraces
    simp only [constructAllKnown, constructCallBackKnown, List.map_cons, Memo.askBatches,
      pushAll_eq, ih, Call.queries]

theorem constructAll_eq (calls : List Call) : constructAll databases calls =
    (calls.map Call.queries).mapM fun frames => frames.mapM (build databases) := by
  rw [constructAll, List.mapM_map]
  congr 1
  funext call
  simp only [Function.comp, Call.queries, List.mapM_map, constructCallBack]
  rfl

end

variable {databases : DatabasePtr → SymbolTables}

def shownStatements (databases : DatabasePtr → SymbolTables) (call : Call) (address : Address) :
    Result (Finset Entry) :=
  if call.addStmts then call.st.getStatementsAt databases address else .ok ∅

/-- An address that two traces have in common is in the same function for the threads
and times of both, and is shown with the same statements. -/
def SameSymbols (databases : DatabasePtr → SymbolTables) (calls : List Call) : Prop :=
  ∀ first ∈ calls, ∀ second ∈ calls, ∀ address, address ∈ first.st.addresses →
    address ∈ second.st.addresses →
    first.st.getFunctionAt databases address = second.st.getFunctionAt databases address ∧
    (first.st.getFunctionAt databases address ≠ .ok none →
      shownStatements databases first address = shownStatements databases second address)

variable {address : Address} {call : Call}

theorem build_function {entry : Entry} (found : call.st.getFunctionAt databases address = .ok (some entry)) :
    build databases (call, address) = (shownStatements databases call address).map
      (CommandResult.ofFunction databases entry) := by
  rw [build, buildCallBackEntry, found, shownStatements]
  cases call.addStmts with
  | true => cases ran : call.st.getStatementsAt databases address <;> simp [Except.map]
  | false => rfl

theorem build_address (found : call.st.getFunctionAt databases address = .ok none) :
    build databases (call, address) = .ok (.address address false) := by
  rw [build, buildCallBackEntry, found]
  rfl

theorem ofFunction_injective {first second : Entry} {statements others : Finset Entry}
    (same : CommandResult.ofFunction databases first statements =
      CommandResult.ofFunction databases second others) : first = second ∧ statements = others := by
  have parts : ∀ entry statements, ∃ line column,
      CommandResult.ofFunction databases entry statements = .function entry statements line column false := by
    intro entry statements
    unfold CommandResult.ofFunction
    split
    · exact ⟨_, _, rfl⟩
    · exact ⟨_, _, rfl⟩
  obtain ⟨_, _, left⟩ := parts first statements
  obtain ⟨_, _, right⟩ := parts second others
  rw [left, right] at same
  obtain ⟨entries, sets, -⟩ := CommandResult.function.inj same
  exact ⟨entries, sets⟩

theorem ofFunction_ne_address {entry : Entry} {statements : Finset Entry} :
    CommandResult.ofFunction databases entry statements ≠ .address address false := by
  unfold CommandResult.ofFunction
  split
  · exact fun same => CommandResult.noConfusion same
  · exact fun same => CommandResult.noConfusion same

theorem build_eq_ok {entry : CommandResult} (built : build databases (call, address) = .ok entry) :
    (∃ function statements, call.st.getFunctionAt databases address = .ok (some function) ∧
      shownStatements databases call address = .ok statements ∧
      entry = CommandResult.ofFunction databases function statements) ∨
    call.st.getFunctionAt databases address = .ok none ∧ entry = .address address false := by
  cases found : call.st.getFunctionAt databases address with
  | error failure =>
    rw [build, buildCallBackEntry, found] at built
    cases built
  | ok function =>
    cases function with
    | none =>
      rw [build_address found] at built
      exact .inr ⟨rfl, (Except.ok.inj built).symm⟩
    | some function =>
      rw [build_function found] at built
      cases shown : shownStatements databases call address with
      | error failure =>
        rw [shown] at built
        cases built
      | ok statements =>
        rw [shown] at built
        exact .inl ⟨function, statements, rfl, rfl, (Except.ok.inj built).symm⟩

theorem build_eq_iff {first second : Call} {firstEntry secondEntry : CommandResult}
    (builtFirst : build databases (first, address) = .ok firstEntry)
    (builtSecond : build databases (second, address) = .ok secondEntry) : firstEntry = secondEntry ↔
      first.st.getFunctionAt databases address = second.st.getFunctionAt databases address ∧
      (first.st.getFunctionAt databases address ≠ .ok none →
        shownStatements databases first address = shownStatements databases second address) := by
  rcases build_eq_ok builtFirst with ⟨function, statements, found, shown, rfl⟩ | ⟨found, rfl⟩
  · rcases build_eq_ok builtSecond with ⟨other, others, otherFound, otherShown, rfl⟩ |
      ⟨otherFound, rfl⟩
    · rw [found, shown, otherFound, otherShown]
      constructor
      · intro same
        obtain ⟨rfl, rfl⟩ := ofFunction_injective same
        exact ⟨rfl, fun _ => rfl⟩
      · rintro ⟨functions, shownSame⟩
        obtain rfl := Option.some.inj (Except.ok.inj functions)
        obtain rfl := Except.ok.inj (shownSame (by simp))
        rfl
    · rw [found, otherFound]
      constructor
      · exact fun same => absurd same ofFunction_ne_address
      · rintro ⟨functions, -⟩
        cases functions
  · rcases build_eq_ok builtSecond with ⟨other, others, otherFound, otherShown, rfl⟩ |
      ⟨otherFound, rfl⟩
    · rw [found, otherFound]
      constructor
      · exact fun same => absurd same.symm ofFunction_ne_address
      · rintro ⟨functions, -⟩
        cases functions
    · rw [found, otherFound]
      exact ⟨fun _ => ⟨rfl, fun some' => absurd rfl some'⟩, fun _ => rfl⟩

theorem mem_frames : address ∈ call.frames ↔ address ∈ call.st.addresses := by
  unfold Call.frames
  split
  · exact Iff.rfl
  · exact List.mem_reverse

theorem mem_queries {calls : List Call} {frame : Call × Address} :
    frame ∈ (calls.map Call.queries).flatten ↔ frame.1 ∈ calls ∧ frame.2 ∈ frame.1.st.addresses := by
  obtain ⟨call, address⟩ := frame
  simp only [List.mem_flatten, List.mem_map, exists_exists_and_eq_and, Call.queries]
  constructor
  · rintro ⟨other, member, found, inFrames, same⟩
    obtain ⟨rfl, rfl⟩ := Prod.mk.inj same
    exact ⟨member, mem_frames.mp inFrames⟩
  · rintro ⟨member, inFrames⟩
    exact ⟨call, member, address, mem_frames.mpr inFrames, rfl⟩

theorem consistent_iff {calls : List Call} {results : List (List CommandResult)}
    (direct : constructAll databases calls = .ok results) :
    Memo.Consistent Prod.snd (build databases) (calls.map Call.queries).flatten ↔
      SameSymbols databases calls := by
  have built : ∀ frame ∈ (calls.map Call.queries).flatten, ∃ entry, build databases frame = .ok entry := by
    intro frame member
    obtain ⟨frames, inCalls, inFrames⟩ := List.mem_flatten.mp member
    rw [constructAll_eq] at direct
    obtain ⟨_, ran, -⟩ := Memo.exists_both (mapM_eq_ok.mp direct) (mapM_eq_ok.mp direct) frames inCalls
    obtain ⟨entry, answered, -⟩ := Memo.exists_both (mapM_eq_ok.mp ran) (mapM_eq_ok.mp ran) frame inFrames
    exact ⟨entry, answered⟩
  constructor
  · intro consistent first firstMember second secondMember address inFirst inSecond
    have firstFrame := @mem_queries calls (first, address) |>.mpr ⟨firstMember, inFirst⟩
    have secondFrame := @mem_queries calls (second, address) |>.mpr ⟨secondMember, inSecond⟩
    obtain ⟨firstEntry, builtFirst⟩ := built _ firstFrame
    obtain ⟨secondEntry, builtSecond⟩ := built _ secondFrame
    have same := consistent _ firstFrame _ secondFrame rfl
    rw [builtFirst, builtSecond] at same
    exact (build_eq_iff builtFirst builtSecond).mp (Except.ok.inj same)
  · rintro same ⟨first, address⟩ firstFrame ⟨second, other⟩ secondFrame rfl
    obtain ⟨firstEntry, builtFirst⟩ := built _ firstFrame
    obtain ⟨secondEntry, builtSecond⟩ := built _ secondFrame
    obtain ⟨firstMember, inFirst⟩ := mem_queries.mp firstFrame
    obtain ⟨secondMember, inSecond⟩ := mem_queries.mp secondFrame
    rw [builtFirst, builtSecond]
    exact congrArg Except.ok ((build_eq_iff builtFirst builtSecond).mpr
      (same first firstMember second secondMember address inFirst inSecond))

theorem constructAllKnown_iff (databases : DatabasePtr → SymbolTables) (calls : List Call)
    (results : List (List CommandResult)) (direct : constructAll databases calls = .ok results) :
    (∃ knownTraces, constructAllKnown databases calls (fun _ => none) =
      .ok (results, knownTraces)) ↔ SameSymbols databases calls := by
  have answers := direct
  rw [constructAll_eq] at answers
  simp only [constructAllKnown_eq]
  exact (Memo.askBatches_iff answers).trans (consistent_iff direct)

/-- Thread 1 has a function at `[4096, 4112)`; thread 2 has nothing there. -/
def mappedOnce : SymbolTables where
  addressSpaces := [⟨1, OffsetBinary.encode 0, OffsetBinary.encode 100, OffsetBinary.encode 4096,
    OffsetBinary.encode 4112, 1⟩]
  functions := ⟨[⟨1, 1, "main"⟩], [⟨1, OffsetBinary.encode 0, OffsetBinary.encode 16, [0xff, 0xff]⟩]⟩
  loops := ⟨[], []⟩
  files := []
  statements := ⟨[], []⟩

def traceIn (thread : Int) : Call := ⟨true, false, ⟨⟨1, thread⟩, 5, [4100]⟩⟩

theorem constructAllKnown_iff_oneThread :
    (∃ knownTraces, constructAllKnown (fun _ => mappedOnce) [traceIn 1, traceIn 1] (fun _ => none) =
      .ok ([[.function ⟨1, 1⟩ ∅ 0 0 false], [.function ⟨1, 1⟩ ∅ 0 0 false]], knownTraces)) ↔
    SameSymbols (fun _ => mappedOnce) [traceIn 1, traceIn 1] := by
  have direct : (constructAll (fun _ => mappedOnce) [traceIn 1, traceIn 1]).toOption =
      some [[.function ⟨1, 1⟩ ∅ 0 0 false], [.function ⟨1, 1⟩ ∅ 0 0 false]] := by
    decide +kernel
  exact constructAllKnown_iff _ _ _ (toOption_eq_some.mp direct)

theorem otherThread_mistaken :
    ∃ results, constructAll (fun _ => mappedOnce) [traceIn 1, traceIn 2] = .ok results ∧
      ∀ knownTraces, constructAllKnown (fun _ => mappedOnce) [traceIn 1, traceIn 2]
        (fun _ => none) ≠ .ok (results, knownTraces) := by
  have direct : (constructAll (fun _ => mappedOnce) [traceIn 1, traceIn 2]).toOption =
      some [[.function ⟨1, 1⟩ ∅ 0 0 false], [.address 4100 false]] := by
    decide +kernel
  have known : ((constructAllKnown (fun _ => mappedOnce) [traceIn 1, traceIn 2]
      (fun _ => none)).toOption.map Prod.fst) =
      some [[.function ⟨1, 1⟩ ∅ 0 0 false], [.function ⟨1, 1⟩ ∅ 0 0 false]] := by
    decide +kernel
  refine ⟨_, toOption_eq_some.mp direct, fun knownTraces same => ?_⟩
  rw [same] at known
  simp [Except.toOption] at known

end CallBack

end OpenSpeedShop
