import OpenSpeedShop.Framework.AcceptedRanges

/-!
The symbols of an object that is mapped at several places: all of them are put into the
one symbol table that the object has.
-/

namespace OpenSpeedShop.SymtabAPISymbols

open Fallible
open Interval (doesContain_iff make)
open List (mem_singleton mem_filter not_mem_nil mem_flatMap argAux forall_mem_cons foldl_cons
  argmin_mem)
open UInt64 (lt_iff_toNat_lt le_iff_toNat_le toNat_one toNat_inj toNat_add toNat toNat_zero)

structure Function where
  getOffset : Address
  getSize : UInt32
  getMangledName : String
deriving DecidableEq

structure Statement where
  startAddr : Address
  endAddr : Address
  getFile : String
  getLine : Int32
  getColumn : Int32
deriving DecidableEq

/-- What the symbol reader knows of the object's file. -/
structure Symtab where
  imageOffset : Address
  imageLength : Address
  getAllFunctions : List Function
  getAllModules : List (List Statement)
deriving DecidableEq

def getSourceLines (module : List Statement) (offset : Address) : List Statement :=
  module.filter fun statement => statement.startAddr ≤ offset && offset < statement.endAddr

inductive TableCall
  | addFunction (dmBegin dmEnd : Address) (name : String)
  | addStatement (dmBegin dmEnd : Address) (path : String) (line column : Int32)
deriving DecidableEq

def Function.range (function : Function) : AddressRange :=
  ⟨function.getOffset, function.getOffset + function.getSize.toUInt64⟩

def offsetIn (base sample : Address) : Result Address := do
  let theAddr ← Address.sub sample base
  return theAddr.toUInt64

def isSampled (range : AddressRange) (base : Address) : List Address → Result Bool
  | [] => return false
  | sample :: rest => do
    let theAddr ← offsetIn base sample
    if range.doesContain theAddr then return true else isSampled range base rest

def sampledFunction (base baseForStm : Address) (samples : List Address) (function : Function) :
    Result (List (AddressRange × String)) :=
  if function.range.dmBegin ≥ function.range.dmEnd then return []
  else do
    let sampled ← isSampled function.range base samples
    if sampled then
      let dmBegin ← Address.add function.range.dmBegin baseForStm
      let dmEnd ← Address.add function.range.dmEnd baseForStm
      return [(⟨dmBegin, dmEnd⟩, function.getMangledName)]
    else return []

def addStatement (base : Address) (statement : Statement) : Result (List TableCall) := do
  let dmBegin ← Address.add statement.startAddr base
  let dmEnd ← Address.add statement.endAddr base
  return [.addStatement dmBegin dmEnd statement.getFile statement.getLine statement.getColumn]

def Statement.size (statement : Statement) : UInt64 := statement.endAddr - statement.startAddr

/-- A size of 0 stands for no statement yet. -/
def keepSmaller : Option Statement → Statement → Option Statement
  | none, statement => some statement
  | some real, statement =>
    if real.size = 0 then some statement
    else if statement.size < real.size then some statement else some real

def realStatement (lines : List Statement) : Option Statement := lines.foldl keepSmaller none

def statementsAt (modules : List (List Statement))
    (chosen : List Statement → List Statement) (base sample : Address) :
    Result (List TableCall) := do
  let theAddr ← offsetIn base sample
  collect (fun module => collect (addStatement base) (chosen (getSourceLines module theAddr))) modules

def callsAt (symtab : Symtab) (base baseForStm : Address) (samples : List Address) :
    Result (List TableCall) := do
  let functions ← collect (sampledFunction base baseForStm samples) symtab.getAllFunctions
  let beginAddresses := functions.foldl (fun begins function => begins.insert function.1.dmBegin)
    AddressSet.empty
  let statements ← collect
    (statementsAt symtab.getAllModules (fun lines => (realStatement lines).toList) base) samples
  let begins ← collect (statementsAt symtab.getAllModules id base) beginAddresses.addresses
  return functions.map (fun function => .addFunction function.1.dmBegin function.1.dmEnd function.2) ++
    statements ++ begins

def baseOf (imageRange range : AddressRange) (base : Address) : Result Address := do
  let difference ← Address.sub imageRange.dmBegin range.dmBegin
  return if difference < 0 then range.dmBegin else base

/-- From the first address of a range to the one that ends it, which is not inside. -/
def samplesIn (addresses : AddressSet) (range : AddressRange) : List Address :=
  addresses.addresses.filter fun sample => range.dmBegin ≤ sample && sample ≤ range.dmEnd

/-- The loop over the ranges, from the range of the table that was found last, if any, and
its base. To use a table that is not there is to go out of bounds. -/
def getSymbolsFrom (symtab : Symtab) (hasTable : AddressRange → Bool) (addresses : AddressSet) :
    Option AddressRange × Address → List AddressRange → Result (List TableCall)
  | _, [] => return []
  | (rangeForStm, baseForStm), lrange :: rest => do
    let rangeForStm := if hasTable lrange then lrange else rangeForStm.getD lrange
    check (hasTable rangeForStm) .outOfBounds
    let imageEnd ← Address.add symtab.imageOffset symtab.imageLength
    let imageRange ← Interval.make symtab.imageOffset imageEnd
    let base ← baseOf imageRange lrange 0
    let baseForStm ← baseOf imageRange rangeForStm baseForStm
    let calls ← callsAt symtab base baseForStm (samplesIn addresses lrange)
    let others ← getSymbolsFrom symtab hasTable addresses (some rangeForStm, baseForStm) rest
    return calls ++ others

def getSymbols (symtab : Symtab) (hasTable : AddressRange → Bool) (addresses : AddressSet)
    (ranges : List AddressRange) : Result (List TableCall) :=
  getSymbolsFrom symtab hasTable addresses (none, 0) ranges

/-- Ranges of one size that do not begin at 0, one of which has a table. -/
structure Mapped (hasTable : AddressRange → Bool) (ranges : List AddressRange)
    (own : AddressRange) : Prop where
  member : own ∈ ranges
  table : ∀ range ∈ ranges, hasTable range = true ↔ range = own
  nonempty : ∀ range ∈ ranges, range.dmBegin ≠ 0 ∧ range.dmBegin < range.dmEnd
  sized : ∀ range ∈ ranges, range.getWidth = own.getWidth

/-- The file of a position-independent object whose symbols have addresses at each place. -/
structure Loadable (symtab : Symtab) (ranges : List AddressRange) : Prop where
  image : symtab.imageOffset = 0 ∧ symtab.imageLength ≠ 0
  functions : ∀ range ∈ ranges, ∀ function ∈ symtab.getAllFunctions,
    function.range.dmEnd.toNat + range.dmBegin.toNat < 2 ^ 64
  statements : ∀ range ∈ ranges, ∀ module ∈ symtab.getAllModules, ∀ statement ∈ module,
    statement.startAddr.toNat + range.dmBegin.toNat < 2 ^ 64 ∧
      statement.endAddr.toNat + range.dmBegin.toNat < 2 ^ 64

def SampleOffset (addresses : AddressSet) (ranges : List AddressRange) (offset : Address) : Prop :=
  ∃ range ∈ ranges, ∃ sample ∈ addresses.addresses, range.doesContain sample = true ∧
    offset = sample - range.dmBegin

def placed (base : Address) (statement : Statement) : TableCall :=
  .addStatement (statement.startAddr + base) (statement.endAddr + base) statement.getFile
    statement.getLine statement.getColumn

/-- The calls for the offsets of samples, with the addresses of the table's range. -/
inductive Wanted (symtab : Symtab) (sampled : Address → Prop) (base : Address) : TableCall → Prop
  | function {function : Function} {offset : Address} (present : function ∈ symtab.getAllFunctions)
      (sample : sampled offset) (inside : function.range.doesContain offset = true) :
      Wanted symtab sampled base (.addFunction (function.range.dmBegin + base)
        (function.range.dmEnd + base) function.getMangledName)
  | statement {offset : Address} {module : List Statement} {statement : Statement}
      (sample : sampled offset) (present : module ∈ symtab.getAllModules)
      (smallest : statement ∈ (getSourceLines module offset).argmin Statement.size) :
      Wanted symtab sampled base (placed base statement)
  | functionBegin {function : Function} {offset : Address} {module : List Statement}
      {statement : Statement} (present : function ∈ symtab.getAllFunctions)
      (sample : sampled offset) (inside : function.range.doesContain offset = true)
      (inModule : module ∈ symtab.getAllModules)
      (first : statement ∈ getSourceLines module function.range.dmBegin) :
      Wanted symtab sampled base (placed base statement)

/-- The range of the table comes first, and no sample is at another place. Nothing is
sampled right behind a place where a symbol can be, and no difference is out of range. -/
structure Harmless (addresses : AddressSet) (ranges : List AddressRange) (own : AddressRange) : Prop where
  first : ranges.head? = some own
  low : ∀ range ∈ ranges, range.dmBegin.toNat ≤ 2 ^ 63
  alone : ∀ range ∈ ranges, range ≠ own → ∀ sample ∈ addresses.addresses, range.doesContain sample = false
  near : ∀ range ∈ ranges, ∀ sample ∈ samplesIn addresses range, sample.toNat - range.dmBegin.toNat < 2 ^ 63
  ends : (∃ range ∈ ranges, range.dmEnd.toNat = 2 ^ 64 - 1) ∨
    ∀ range ∈ ranges, range.dmEnd ∉ addresses.addresses

variable {base baseForStm sample offset : Address} {samples : List Address} {symtab : Symtab}
  {calls : List TableCall}

theorem offsetIn_eq_ok (above : base ≤ sample) :
    offsetIn base sample = .ok offset ↔ sample.toNat - base.toNat < 2 ^ 63 ∧ offset = sample - base := by
  unfold offsetIn
  rw [bind_eq_ok]
  constructor
  · rintro ⟨theAddr, subtracted, returned⟩
    obtain ⟨value, near⟩ := Address.sub_eq_ok above subtracted
    obtain rfl := Except.ok.inj returned
    exact ⟨near, value⟩
  · rintro ⟨near, rfl⟩
    exact ⟨_, Address.sub_of_le above near, rfl⟩

theorem baseOf_eq_ok {imageRange range : AddressRange} (image : imageRange.dmBegin = 0)
    (nonzero : range.dmBegin ≠ 0) {result : Address} :
    baseOf imageRange range base = .ok result ↔ range.dmBegin.toNat ≤ 2 ^ 63 ∧ result = range.dmBegin := by
  have returns := @Address.sub_returns_iff 0 range.dmBegin
  have below : ∀ difference, Address.sub 0 range.dmBegin = .ok difference → difference < 0 := by
    intro difference subtracted
    obtain ⟨-, low⟩ := returns.mp ⟨_, subtracted⟩
    unfold Address.sub at subtracted
    dsimp only at subtracted
    split at subtracted
    · obtain rfl := Except.ok.inj subtracted
      have signed : (0 - range.dmBegin).toInt64.toInt = (0 - range.dmBegin).toBitVec.toInt := rfl
      have value : (0 - range.dmBegin).toBitVec.toNat = (0 - range.dmBegin).toNat := rfl
      have bound := range.dmBegin.toNat_lt
      have positive : range.dmBegin.toNat ≠ 0 := fun zero => nonzero (toNat_inj.mp zero)
      rw [Int64.lt_iff_toInt_lt, Int64.toInt_zero, signed, BitVec.toInt_eq_toNat_cond, value, UInt64.toNat_sub]
      rw [toNat_zero] at low ⊢
      split <;> omega
    · cases subtracted
  unfold baseOf
  rw [image, bind_eq_ok]
  constructor
  · rintro ⟨difference, subtracted, returned⟩
    rw [if_pos (below _ subtracted)] at returned
    exact ⟨by simpa using (returns.mp ⟨_, subtracted⟩).2, (Except.ok.inj returned).symm⟩
  · rintro ⟨low, rfl⟩
    obtain ⟨difference, subtracted⟩ := returns.mpr ⟨by simp, by simpa using low⟩
    exact ⟨difference, subtracted, by rw [if_pos (below _ subtracted)]; rfl⟩

theorem addStatement_eq_ok {statement : Statement} : addStatement base statement = .ok calls ↔
      (statement.startAddr.toNat + base.toNat < 2 ^ 64 ∧
        statement.endAddr.toNat + base.toNat < 2 ^ 64) ∧ calls = [placed base statement] := by
  unfold addStatement
  simp only [bind_eq_ok, Address.add_eq_ok]
  constructor
  · rintro ⟨_, ⟨start, rfl⟩, _, ⟨ends, rfl⟩, returned⟩
    exact ⟨⟨start, ends⟩, (Except.ok.inj returned).symm⟩
  · rintro ⟨⟨start, ends⟩, rfl⟩
    exact ⟨_, ⟨start, rfl⟩, _, ⟨ends, rfl⟩, rfl⟩

theorem isSampled_eq {range : AddressRange}
    (near : ∀ sample ∈ samples, base ≤ sample ∧ sample.toNat - base.toNat < 2 ^ 63) :
    isSampled range base samples = .ok (samples.any fun sample => range.doesContain (sample - base)) := by
  induction samples with
  | nil => rfl
  | cons sample rest ih =>
    obtain ⟨⟨above, close⟩, others⟩ := forall_mem_cons.mp near
    rw [isSampled, (offsetIn_eq_ok above).mpr ⟨close, rfl⟩, ok_bind, List.any_cons]
    cases range.doesContain (sample - base) with
    | true => rfl
    | false => exact ih others

theorem realStatement_eq {lines : List Statement} (sized : ∀ line ∈ lines, line.size ≠ 0) :
    realStatement lines = lines.argmin Statement.size := by
  have from_ : ∀ real : Option Statement, (∀ line ∈ real, line.size ≠ 0) →
      lines.foldl keepSmaller real =
        lines.foldl (argAux fun first second => first.size < second.size) real := by
    induction lines with
    | nil => exact fun _ _ => rfl
    | cons line rest ih =>
      intro real known
      obtain ⟨here, others⟩ := forall_mem_cons.mp sized
      have step : keepSmaller real line =
          argAux (fun first second => first.size < second.size) real line := by
        cases real with
        | none => rfl
        | some real => simp [keepSmaller, argAux, known real rfl]
      rw [foldl_cons, foldl_cons, step]
      refine ih others _ ?_
      rw [← step]
      intro other kept
      have either : other = line ∨ other ∈ real := by
        cases real with
        | none => exact Or.inl (Option.some.inj kept).symm
        | some real =>
          simp only [keepSmaller] at kept
          split_ifs at kept
          · exact Or.inl (Option.some.inj kept).symm
          · exact Or.inl (Option.some.inj kept).symm
          · exact Or.inr kept
      rcases either with rfl | old
      · exact here
      · exact known other old
  exact from_ none (by simp)

theorem size_ne_zero {module : List Statement} : ∀ line ∈ getSourceLines module offset, line.size ≠ 0 := by
  intro line member
  obtain ⟨-, covers⟩ := mem_filter.mp member
  simp only [Bool.and_eq_true, decide_eq_true_eq] at covers
  have wide := covers.1.trans_lt covers.2
  intro zero
  have width := toNat_sub_of_le wide.le
  change line.size.toNat = _ at width
  rw [zero, toNat_zero] at width
  rw [lt_iff_toNat_lt] at wide
  omega

theorem mem_begins {address : Address} {functions : List (AddressRange × String)} : ∀ {set : AddressSet},
    address ∈ (functions.foldl (fun begins function => begins.insert function.1.dmBegin) set).addresses ↔
      address ∈ set.addresses ∨ ∃ function ∈ functions, address = function.1.dmBegin := by
  induction functions with
  | nil => simp
  | cons function rest ih =>
    intro set
    rw [foldl_cons, ih, List.exists_mem_cons_iff, ← or_assoc]
    exact or_congr_left (AddressSet.mem_insertSorted.trans or_comm)

structure Placeable (symtab : Symtab) (base : Address) : Prop where
  functions : ∀ function ∈ symtab.getAllFunctions, function.range.dmEnd.toNat + base.toNat < 2 ^ 64
  statements : ∀ module ∈ symtab.getAllModules, ∀ statement ∈ module,
    statement.startAddr.toNat + base.toNat < 2 ^ 64 ∧ statement.endAddr.toNat + base.toNat < 2 ^ 64

section

variable (placeable : Placeable symtab base)
  (near : ∀ sample ∈ samples, base ≤ sample ∧ sample.toNat - base.toNat < 2 ^ 63)
  (agree : ∀ sample ∈ samples, ∀ function ∈ symtab.getAllFunctions,
    function.range.doesContain (sample - base) = true → baseForStm = base)

include placeable

theorem statementsAt_eq {chosen : List Statement → List Statement}
    (some_ : ∀ module, ∀ statement ∈ chosen (getSourceLines module (sample - base)), statement ∈ module)
    (above : base ≤ sample) (close : sample.toNat - base.toNat < 2 ^ 63) :
    statementsAt symtab.getAllModules chosen base sample = .ok (symtab.getAllModules.flatMap fun module =>
        (chosen (getSourceLines module (sample - base))).map (placed base)) := by
  unfold statementsAt
  rw [(offsetIn_eq_ok above).mpr ⟨close, rfl⟩, ok_bind]
  refine collect_eq_flatMap fun module present => ?_
  rw [List.map_eq_flatMap]
  refine collect_eq_flatMap fun statement member => ?_
  exact addStatement_eq_ok.mpr ⟨placeable.statements module present statement (some_ _ _ member), rfl⟩

include near agree

theorem sampledFunction_eq {function : Function} (present : function ∈ symtab.getAllFunctions) :
    sampledFunction base baseForStm samples function =
      .ok (if ∃ sample ∈ samples, function.range.doesContain (sample - base) = true then
        [(⟨function.range.dmBegin + base, function.range.dmEnd + base⟩, function.getMangledName)]
        else []) := by
  have fits := placeable.functions function present
  unfold sampledFunction
  split
  · rename_i empty
    rw [if_neg]
    · rfl
    · rintro ⟨sample, -, inside⟩
      rw [doesContain_iff] at inside
      exact absurd (inside.1.trans_lt inside.2) (not_lt.mpr empty)
  · rename_i some_
    rw [isSampled_eq near, ok_bind]
    by_cases sampled : ∃ sample ∈ samples, function.range.doesContain (sample - base) = true
    · have low := lt_iff_toNat_lt.mp (not_le.mp some_)
      obtain ⟨sample, among, inside⟩ := id sampled
      rw [if_pos sampled, if_pos (List.any_eq_true.mpr sampled), agree sample among function present inside,
        Address.add_eq_ok.mpr ⟨by omega, rfl⟩, ok_bind, Address.add_eq_ok.mpr ⟨fits, rfl⟩]
      rfl
    · rw [if_neg sampled, if_neg (fun any => sampled (List.any_eq_true.mp any))]
      rfl

theorem callsAt_eq : ∃ calls, callsAt symtab base baseForStm samples = .ok calls ∧ ∀ call, call ∈ calls ↔
    Wanted symtab (fun offset => ∃ sample ∈ samples, offset = sample - base) base call := by
  have functions := collect_eq_flatMap fun function present => sampledFunction_eq placeable near agree present
  generalize made : symtab.getAllFunctions.flatMap _ = found at functions
  have listed : ∀ pair, pair ∈ found ↔ ∃ function ∈ symtab.getAllFunctions,
      (∃ sample ∈ samples, function.range.doesContain (sample - base) = true) ∧
        pair = (⟨function.range.dmBegin + base, function.range.dmEnd + base⟩, function.getMangledName) := by
    intro pair
    rw [← made, mem_flatMap]
    refine exists_congr fun function => and_congr_right fun _ => ?_
    split
    · rename_i sampled
      rw [mem_singleton, and_iff_right sampled]
    · rename_i sampled
      simp only [not_mem_nil, sampled, false_and]
  have begins : ∀ address, address ∈ (found.foldl (fun begins function => begins.insert function.1.dmBegin)
      AddressSet.empty).addresses ↔ ∃ pair ∈ found, address = pair.1.dmBegin := by
    intro address
    rw [mem_begins, AddressSet.empty]
    simp only [not_mem_nil, false_or]
  have smallest : ∀ module offset, realStatement (getSourceLines module offset) =
      (getSourceLines module offset).argmin Statement.size := fun module offset => realStatement_eq size_ne_zero
  have inFile : ∀ module offset statement, statement ∈ getSourceLines module offset → statement ∈ module :=
    fun module offset statement member => (mem_filter.mp member).1
  have statements := collect_eq_flatMap fun sample member =>
    @statementsAt_eq base sample symtab placeable (fun lines => (realStatement lines).toList)
      (fun module statement chosen => inFile module _ _ (argmin_mem
        (smallest module _ ▸ Option.mem_toList.mp chosen))) (near sample member).1 (near sample member).2
  have backAt : ∀ address ∈ (found.foldl (fun begins function => begins.insert function.1.dmBegin)
      AddressSet.empty).addresses, base ≤ address ∧ address.toNat - base.toNat < 2 ^ 63 := by
    intro address member
    obtain ⟨pair, present, rfl⟩ := (begins address).mp member
    obtain ⟨function, inTable, ⟨sample, sampled, inside⟩, rfl⟩ := (listed pair).mp present
    have fits := placeable.functions function inTable
    obtain ⟨above, close⟩ := near sample sampled
    rw [doesContain_iff, le_iff_toNat_le, lt_iff_toNat_lt, toNat_sub_of_le above] at inside
    rw [le_iff_toNat_le, toNat_add, Nat.mod_eq_of_lt (by omega)]
    omega
  have firsts := collect_eq_flatMap fun address member =>
    @statementsAt_eq base address symtab placeable id (fun module statement => inFile module _ statement)
      (backAt address member).1 (backAt address member).2
  unfold callsAt
  rw [functions, ok_bind, statements, ok_bind, firsts, ok_bind]
  refine ⟨_, rfl, fun call => ?_⟩
  simp only [List.mem_append, List.mem_map, mem_flatMap, begins, Option.mem_toList, smallest, id]
  constructor
  · rintro ((⟨pair, present, rfl⟩ | ⟨sample, sampled, module, present, statement, chosen, rfl⟩) |
      ⟨address, ⟨pair, first, rfl⟩, module, present, statement, covers, rfl⟩)
    · obtain ⟨function, inTable, ⟨sample, sampled, inside⟩, rfl⟩ := (listed pair).mp present
      exact Wanted.function inTable ⟨sample, sampled, rfl⟩ inside
    · exact Wanted.statement ⟨sample, sampled, rfl⟩ present chosen
    · obtain ⟨function, inTable, ⟨sample, sampled, inside⟩, rfl⟩ := (listed pair).mp first
      simp only [UInt64.add_sub_cancel] at covers
      exact Wanted.functionBegin inTable ⟨sample, sampled, rfl⟩ inside present covers
  · rintro (⟨inTable, ⟨sample, sampled, rfl⟩, inside⟩ | ⟨⟨sample, sampled, rfl⟩, present, chosen⟩ |
      ⟨inTable, ⟨sample, sampled, rfl⟩, inside, present, covers⟩)
    · exact Or.inl (Or.inl ⟨_, (listed _).mpr ⟨_, inTable, ⟨sample, sampled, inside⟩, rfl⟩, rfl⟩)
    · exact Or.inl (Or.inr ⟨sample, sampled, _, present, _, chosen, rfl⟩)
    · refine Or.inr ⟨_, ⟨_, (listed _).mpr ⟨_, inTable, ⟨sample, sampled, inside⟩, rfl⟩, rfl⟩, _, present, _, ?_, rfl⟩
      simpa only [UInt64.add_sub_cancel]

end

/-- A symbol is at the offset. -/
def Covered (symtab : Symtab) (offset : Address) : Prop :=
  (∃ function ∈ symtab.getAllFunctions, function.range.doesContain offset = true) ∨
    ∃ module ∈ symtab.getAllModules, ∃ statement, statement ∈ getSourceLines module offset

theorem Wanted.imp {sampled other : Address → Prop} {otherBase : Address} {call : TableCall}
    (wanted : Wanted symtab sampled base call)
    (implies : ∀ offset, sampled offset → Covered symtab offset → base = otherBase ∧ other offset) :
    Wanted symtab other otherBase call := by
  cases wanted with
  | function present sample inside =>
    obtain ⟨rfl, sample⟩ := implies _ sample (Or.inl ⟨_, present, inside⟩)
    exact .function present sample inside
  | statement sample present smallest =>
    obtain ⟨rfl, sample⟩ := implies _ sample (Or.inr ⟨_, present, _, argmin_mem smallest⟩)
    exact .statement sample present smallest
  | functionBegin present sample inside inModule first =>
    obtain ⟨rfl, sample⟩ := implies _ sample (Or.inl ⟨_, present, inside⟩)
    exact .functionBegin present sample inside inModule first

section

variable {hasTable : AddressRange → Bool} {addresses : AddressSet} {ranges : List AddressRange}
  {own : AddressRange} (mapped : Mapped hasTable ranges own)
  (image : symtab.imageOffset = 0 ∧ symtab.imageLength ≠ 0)

include mapped image

theorem getSymbolsFrom_eq_ok {todo : List AddressRange} : ∀ {calls : List TableCall}
    {found : Option AddressRange} {baseForStm : Address}, (∀ range ∈ todo, range ∈ ranges) →
    (∀ range ∈ todo.head?, (if hasTable range then range else found.getD range) = own) →
    (getSymbolsFrom symtab hasTable addresses (found, baseForStm) todo = .ok calls ↔
      (∀ range ∈ todo, (range.dmBegin.toNat ≤ 2 ^ 63 ∧ own.dmBegin.toNat ≤ 2 ^ 63) ∧
        ∃ here, callsAt symtab range.dmBegin own.dmBegin (samplesIn addresses range) = .ok here) ∧
      calls = todo.flatMap fun range =>
        given (callsAt symtab range.dmBegin own.dmBegin (samplesIn addresses range))) := by
  induction todo with
  | nil =>
    intro calls found baseForStm _ _
    simp [getSymbolsFrom, pure, Except.pure, eq_comm]
  | cons lrange rest ih =>
    intro calls found baseForStm among start
    obtain ⟨inRanges, others⟩ := forall_mem_cons.mp among
    have later := fun calls => @ih calls (some own) own.dmBegin others (by
      intro range _
      split
      · rename_i tabled
        exact (mapped.table range (others range (List.mem_of_mem_head? ‹_›))).mp tabled
      · rfl)
    have imageEnd : Address.add symtab.imageOffset symtab.imageLength = .ok symtab.imageLength := by
      rw [image.1]
      exact Address.add_eq_ok.mpr ⟨by simpa using symtab.imageLength.toNat_lt, by simp⟩
    have imageRange : make symtab.imageOffset symtab.imageLength = .ok ⟨0, symtab.imageLength⟩ := by
      rw [image.1]
      exact Interval.make_eq_ok.mpr ⟨UInt64.pos_iff_ne_zero.mpr image.2, rfl⟩
    rw [getSymbolsFrom, start lrange rfl, (mapped.table own mapped.member).mpr rfl, check_true, ok_bind, imageEnd,
      ok_bind, imageRange, ok_bind]
    have base := @baseOf_eq_ok 0 ⟨0, symtab.imageLength⟩ lrange rfl (mapped.nonempty lrange inRanges).1
    have ownBase := @baseOf_eq_ok baseForStm ⟨0, symtab.imageLength⟩ own rfl (mapped.nonempty own mapped.member).1
    simp only [bind_eq_ok, base, ownBase, forall_mem_cons, List.flatMap_cons]
    constructor
    · rintro ⟨_, ⟨low, rfl⟩, _, ⟨ownLow, rfl⟩, here, ran, more, continued, returned⟩
      obtain ⟨each, rfl⟩ := (later more).mp continued
      rw [given_of_ok ran]
      exact ⟨⟨⟨⟨low, ownLow⟩, here, ran⟩, each⟩, (Except.ok.inj returned).symm⟩
    · rintro ⟨⟨⟨⟨low, ownLow⟩, here, ran⟩, each⟩, rfl⟩
      rw [given_of_ok ran]
      exact ⟨_, ⟨low, rfl⟩, _, ⟨ownLow, rfl⟩, here, ran, _, (later _).mpr ⟨each, rfl⟩, rfl⟩

theorem getSymbols_eq_ok : getSymbols symtab hasTable addresses ranges = .ok calls ↔
    ranges.head? = some own ∧ (∀ range ∈ ranges, range.dmBegin.toNat ≤ 2 ^ 63 ∧
      ∃ here, callsAt symtab range.dmBegin own.dmBegin (samplesIn addresses range) = .ok here) ∧
    calls = ranges.flatMap fun range =>
      given (callsAt symtab range.dmBegin own.dmBegin (samplesIn addresses range)) := by
  cases ranges with
  | nil => exact absurd mapped.member not_mem_nil
  | cons lrange rest =>
    have run := @getSymbolsFrom_eq_ok symtab hasTable addresses (lrange :: rest) own mapped image
      (lrange :: rest) calls none 0 (fun _ => id)
    by_cases same : lrange = own
    · have start : ∀ range ∈ (lrange :: rest).head?, (if hasTable range then range else range) = own := by
        simpa using same
      refine (run start).trans ?_
      subst same
      constructor
      · rintro ⟨each, result⟩
        exact ⟨rfl, fun range member => ⟨(each range member).1.1, (each range member).2⟩, result⟩
      · rintro ⟨-, each, result⟩
        have ownLow := (each lrange List.mem_cons_self).1
        exact ⟨fun range member => ⟨⟨(each range member).1, ownLow⟩, (each range member).2⟩, result⟩
    · have untabled : hasTable lrange = false := Bool.eq_false_iff.mpr fun tabled =>
        same ((mapped.table lrange List.mem_cons_self).mp tabled)
      simp [getSymbols, getSymbolsFrom, untabled, same, check]

end

variable {hasTable : AddressRange → Bool} {addresses : AddressSet} {ranges : List AddressRange}
  {own range : AddressRange}

theorem mem_samplesIn : sample ∈ samplesIn addresses range ↔
    sample ∈ addresses.addresses ∧ range.dmBegin ≤ sample ∧ sample ≤ range.dmEnd := by
  simp [samplesIn]

theorem near_of_ok {here : List TableCall}
    (ran : callsAt symtab range.dmBegin baseForStm (samplesIn addresses range) = .ok here) :
    ∀ sample ∈ samplesIn addresses range, sample.toNat - range.dmBegin.toNat < 2 ^ 63 := by
  intro sample member
  unfold callsAt at ran
  obtain ⟨functions, -, ran⟩ := bind_eq_ok.mp ran
  obtain ⟨statements, each, -⟩ := bind_eq_ok.mp ran
  obtain ⟨more, here⟩ := (collect_eq_ok.mp each).1 sample member
  obtain ⟨theAddr, subtracted, -⟩ := bind_eq_ok.mp here
  exact ((offsetIn_eq_ok (mem_samplesIn.mp member).2.1).mp subtracted).1

/-- A file with one statement, a byte long. -/
def probe (offset : Address) : Symtab := ⟨0, 1, [], [[⟨offset, offset + 1, "", 0, 0⟩]]⟩

theorem loadable_probe (room : ∀ range ∈ ranges, offset.toNat + 1 + range.dmBegin.toNat < 2 ^ 64) :
    Loadable (probe offset) ranges where
  image := ⟨rfl, by simp [probe]⟩
  functions := by simp [probe]
  statements := by
    intro range member module inFile statement inModule
    have fits := room range member
    obtain rfl := mem_singleton.mp inFile
    obtain rfl := mem_singleton.mp inModule
    dsimp only
    rw [toNat_add, Nat.mod_eq_of_lt (by rw [toNat_one]; omega), toNat_one]
    omega

/-- What the probe gives if the calls for it are the wanted ones. -/
theorem probed (mapped : Mapped hasTable ranges own) (member : range ∈ ranges)
    (inRange : sample ∈ samplesIn addresses range)
    (room : ∀ range' ∈ ranges, (sample - range.dmBegin).toNat + 1 + range'.dmBegin.toNat < 2 ^ 64)
    {calls : List TableCall} (exact_ : ∀ call ∈ calls, Wanted (probe (sample - range.dmBegin))
      (SampleOffset addresses ranges) own.dmBegin call)
    (ran : getSymbols (probe (sample - range.dmBegin)) hasTable addresses ranges = .ok calls) :
    range.dmBegin = own.dmBegin ∧ SampleOffset addresses ranges (sample - range.dmBegin) := by
  have loadable := loadable_probe room
  obtain ⟨-, each, rfl⟩ := (getSymbols_eq_ok mapped loadable.image).mp ran
  obtain ⟨-, here, ranHere⟩ := each range member
  obtain ⟨onObject, above, -⟩ := mem_samplesIn.mp inRange
  have fits := room range member
  generalize from_ : sample - range.dmBegin = offset at *
  have past : (offset + 1).toNat = offset.toNat + 1 := by
    rw [toNat_add, toNat_one, Nat.mod_eq_of_lt (by omega)]
  have onlyHere : ∀ other : Address, offset ≤ other ∧ other < offset + 1 ↔ other = offset := by
    intro other
    rw [le_iff_toNat_le, lt_iff_toNat_lt, past, ← toNat_inj]
    omega
  have line : ∀ other statement, statement ∈ getSourceLines [⟨offset, offset + 1, "", 0, 0⟩] other ↔
      statement = ⟨offset, offset + 1, "", 0, 0⟩ ∧ other = offset := by
    intro other statement
    rw [getSourceLines, mem_filter, mem_singleton, ← onlyHere other, Bool.and_eq_true,
      decide_eq_true_eq, decide_eq_true_eq]
    exact and_congr_right fun same => by rw [same]
  have near := fun sample inRange => And.intro (mem_samplesIn.mp inRange).2.1 (near_of_ok ranHere sample inRange)
  obtain ⟨given_, ran, called⟩ := callsAt_eq ⟨loadable.functions range member, loadable.statements range member⟩
    near fun _ _ function present => absurd present not_mem_nil
  have single : getSourceLines [⟨offset, offset + 1, "", 0, 0⟩] offset = [⟨offset, offset + 1, "", 0, 0⟩] :=
    List.filter_eq_self.mpr fun statement listed =>
      (mem_filter.mp ((line offset statement).mpr ⟨mem_singleton.mp listed, rfl⟩)).2
  have here_ := (called _).mpr (Wanted.statement ⟨sample, inRange, from_.symm⟩ List.mem_cons_self
    (by rw [single, List.argmin_singleton]; rfl))
  have wanted := exact_ _ (mem_flatMap.mpr ⟨range, member, by rwa [given_of_ok ran]⟩)
  generalize same : placed range.dmBegin _ = call at wanted
  cases wanted with
  | function present => cases present
  | functionBegin present => cases present
  | statement sampled inFile smallest =>
    obtain rfl := mem_singleton.mp inFile
    obtain ⟨rfl, rfl⟩ := (line _ _).mp (argmin_mem smallest)
    injection same with begins
    exact ⟨(UInt64.add_right_inj _).mp begins, sampled⟩

theorem getSymbols_exact_iff (mapped : Mapped hasTable ranges own) :
    (∀ symtab, Loadable symtab ranges → ∃ calls, getSymbols symtab hasTable addresses ranges = .ok calls ∧
      ∀ call, call ∈ calls ↔ Wanted symtab (SampleOffset addresses ranges) own.dmBegin call) ↔
    Harmless addresses ranges own := by
  have widths : ∀ range ∈ ranges, range.dmBegin.toNat < range.dmEnd.toNat ∧ range.dmEnd.toNat < 2 ^ 64 ∧
      range.dmEnd.toNat - range.dmBegin.toNat = own.dmEnd.toNat - own.dmBegin.toNat := by
    intro range member
    have nonempty := (mapped.nonempty range member).2
    have sized := congrArg toNat (mapped.sized range member)
    unfold Interval.getWidth at sized
    rw [toNat_sub_of_le nonempty.le, toNat_sub_of_le (mapped.nonempty own mapped.member).2.le] at sized
    exact ⟨lt_iff_toNat_lt.mp nonempty, range.dmEnd.toNat_lt, sized⟩
  have ownWidth := widths own mapped.member
  constructor
  · intro exact_
    obtain ⟨calls, ran, -⟩ := exact_ ⟨0, 1, [], []⟩ ⟨⟨rfl, by decide⟩, by simp, by simp⟩
    obtain ⟨first, each, -⟩ := (getSymbols_eq_ok mapped ⟨rfl, by decide⟩).mp ran
    have probes : ∀ range ∈ ranges, ∀ sample ∈ samplesIn addresses range,
        (∀ other ∈ ranges, (sample - range.dmBegin).toNat + 1 + other.dmBegin.toNat < 2 ^ 64) →
        range.dmBegin = own.dmBegin ∧ SampleOffset addresses ranges (sample - range.dmBegin) := by
      intro range member sample inRange room
      obtain ⟨calls, ran, wanted⟩ := exact_ _ (loadable_probe room)
      exact probed mapped member inRange room (fun call => (wanted call).mp) ran
    refine ⟨first, fun range member => (each range member).1, ?_, ?_, ?_⟩
    · intro range member different sample present
      refine Bool.eq_false_iff.mpr fun inside => different ?_
      obtain ⟨above, below⟩ := (doesContain_iff _ _).mp inside
      obtain ⟨same, -⟩ := probes range member sample (mem_samplesIn.mpr ⟨present, above, below.le⟩) (by
        intro other inRanges
        rw [toNat_sub_of_le above]
        have here := widths range member
        have there := widths other inRanges
        rw [lt_iff_toNat_lt] at below
        omega)
      have width := (widths range member)
      have ends : range.dmEnd = own.dmEnd := toNat_inj.mp (by rw [same] at width; omega)
      cases range
      cases own
      simp_all
    · intro range member
      obtain ⟨-, here, ranHere⟩ := each range member
      exact near_of_ok ranHere
    · by_contra neither
      push Not at neither
      obtain ⟨below, range, member, present⟩ := neither
      have wide := (mapped.nonempty range member).2.le
      obtain ⟨-, other, inRanges, sample, -, inside, same⟩ :=
        probes range member range.dmEnd (mem_samplesIn.mpr ⟨present, wide, le_rfl⟩) (by
          intro other inRanges
          rw [toNat_sub_of_le wide]
          have here := widths range member
          have there := widths other inRanges
          have last := below other inRanges
          omega)
      obtain ⟨above, before⟩ := (doesContain_iff _ _).mp inside
      have offsets := congrArg toNat same
      rw [toNat_sub_of_le wide, toNat_sub_of_le above] at offsets
      rw [lt_iff_toNat_lt] at before
      rw [le_iff_toNat_le] at above
      have here := widths range member
      have there := widths other inRanges
      omega
  · intro harmless symtab loadable
    have fits : ∀ offset, Covered symtab offset → ∀ range ∈ ranges, offset.toNat + range.dmBegin.toNat < 2 ^ 64 - 1 := by
      rintro offset (⟨function, present, inside⟩ | ⟨module, present, statement, covers⟩) range member
      · have fit := loadable.functions range member function present
        have below := lt_iff_toNat_lt.mp ((doesContain_iff _ _).mp inside).2
        omega
      · obtain ⟨inModule, covers⟩ := mem_filter.mp covers
        have fit := (loadable.statements range member module present statement inModule).2
        simp only [Bool.and_eq_true, decide_eq_true_eq] at covers
        have below := lt_iff_toNat_lt.mp covers.2
        omega
    have inside : ∀ range ∈ ranges, ∀ sample ∈ samplesIn addresses range,
        Covered symtab (sample - range.dmBegin) → range.doesContain sample = true := by
      intro range member sample inRange covered
      obtain ⟨present, above, most⟩ := mem_samplesIn.mp inRange
      refine (doesContain_iff _ _).mpr ⟨above, lt_of_le_of_ne most ?_⟩
      rintro rfl
      rcases harmless.ends with ⟨last, among, ends⟩ | none_
      · have fit := fits _ covered last among
        rw [toNat_sub_of_le above] at fit
        have here := widths range member
        have there := widths last among
        omega
      · exact none_ range member present
    have settled : ∀ range ∈ ranges, ∀ sample ∈ samplesIn addresses range,
        Covered symtab (sample - range.dmBegin) → range = own := by
      intro range member sample inRange covered
      by_contra different
      have outside := harmless.alone range member different sample (mem_samplesIn.mp inRange).1
      rw [inside range member sample inRange covered] at outside
      cases outside
    have each := fun range member => callsAt_eq
      ⟨loadable.functions range member, loadable.statements range member⟩
      (fun sample inRange => ⟨(mem_samplesIn.mp inRange).2.1, harmless.near range member sample inRange⟩)
      (fun sample inRange function present covers => congrArg Interval.dmBegin
        (settled range member sample inRange (Or.inl ⟨function, present, covers⟩)).symm)
    refine ⟨_, (getSymbols_eq_ok mapped loadable.image).mpr ⟨harmless.first, fun range member =>
      ⟨harmless.low range member, (each range member).imp fun _ => And.left⟩, rfl⟩, fun call => ?_⟩
    rw [mem_flatMap]
    constructor
    · rintro ⟨range, member, listed⟩
      obtain ⟨here, ran, wanted⟩ := each range member
      rw [given_of_ok ran, wanted] at listed
      refine listed.imp ?_
      rintro _ ⟨sample, inRange, rfl⟩ covered
      have present := (mem_samplesIn.mp inRange).1
      exact ⟨congrArg Interval.dmBegin (settled range member sample inRange covered),
        range, member, sample, present, inside range member sample inRange covered, rfl⟩
    · intro wants
      obtain ⟨here, ran, wanted⟩ := each own mapped.member
      refine ⟨own, mapped.member, ?_⟩
      rw [given_of_ok ran, wanted]
      refine wants.imp ?_
      rintro _ ⟨range, member, sample, present, within, rfl⟩ -
      by_cases same : range = own
      · obtain ⟨above, below⟩ := (doesContain_iff _ _).mp within
        exact ⟨rfl, sample, mem_samplesIn.mpr (same ▸ ⟨present, above, below.le⟩), by rw [same]⟩
      · rw [harmless.alone range member same sample present] at within
        cases within

theorem getSymbols_exact_alone :
    (∀ symtab, Loadable symtab [⟨4096, 8192⟩] →
      ∃ calls, getSymbols symtab (fun _ => true) ⟨[4100], List.pairwise_singleton _ _⟩ [⟨4096, 8192⟩] = .ok calls ∧
        ∀ call, call ∈ calls ↔ Wanted symtab
          (SampleOffset ⟨[4100], List.pairwise_singleton _ _⟩ [⟨4096, 8192⟩]) 4096 call) ↔
    Harmless ⟨[4100], List.pairwise_singleton _ _⟩ [⟨4096, 8192⟩] ⟨4096, 8192⟩ :=
  @getSymbols_exact_iff (fun _ => true) _ _ _ ⟨List.mem_singleton_self _, by simp, by simp, by simp⟩

theorem getSymbols_second_outOfBounds :
    Mapped (fun range => decide (range = ⟨65536, 69632⟩)) [⟨4096, 8192⟩, ⟨65536, 69632⟩] ⟨65536, 69632⟩ ∧
      Loadable ⟨0, 4096, [], []⟩ [⟨4096, 8192⟩, ⟨65536, 69632⟩] ∧
      getSymbols ⟨0, 4096, [], []⟩ (fun range => decide (range = ⟨65536, 69632⟩)) AddressSet.empty
        [⟨4096, 8192⟩, ⟨65536, 69632⟩] = .error .outOfBounds :=
  ⟨⟨by simp, by simp, by simp, by decide⟩, ⟨by simp, by simp, by simp⟩, by decide⟩

end OpenSpeedShop.SymtabAPISymbols
