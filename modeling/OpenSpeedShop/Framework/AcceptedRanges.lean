import OpenSpeedShop.Framework.AddressBitmap
import OpenSpeedShop.Framework.SymbolTableCore
import OpenSpeedShop.Library.Runs

/-!
Which ranges a symbol table accepts, when asking so returns, and what the maps of
the table hold after a sequence of calls.
-/

namespace OpenSpeedShop

open Fallible
open UInt64 (lt_iff_toNat_lt toNat_one le_iff_toNat_le)

theorem Address.sub_returns_iff {self other : Address} :
    (∃ difference, Address.sub self other = .ok difference) ↔
      self.toNat - other.toNat < 2 ^ 63 ∧ other.toNat - self.toNat ≤ 2 ^ 63 := by
  by_cases ordered : other ≤ self
  · have lower := le_iff_toNat_le.mp ordered
    constructor
    · rintro ⟨difference, subtracted⟩
      exact ⟨(Address.sub_eq_ok ordered subtracted).2, by omega⟩
    · rintro ⟨near, -⟩
      exact ⟨_, Address.sub_of_le ordered near⟩
  · have lower : self < other := not_le.mp ordered
    have negative : (self - other).toInt64 ≤ 0 ↔ other.toNat - self.toNat ≤ 2 ^ 63 := by
      have signed : (self - other).toInt64.toInt = (self - other).toBitVec.toInt := rfl
      have value : (self - other).toBitVec.toNat = (self - other).toNat := rfl
      rw [Int64.le_iff_toInt_le, Int64.toInt_zero, signed, BitVec.toInt_eq_toNat_cond, value, UInt64.toNat_sub]
      rw [lt_iff_toNat_lt] at lower
      have bound := other.toNat_lt
      have selfBound := self.toNat_lt
      split <;> omega
    have below : self.toNat - other.toNat < 2 ^ 63 := by
      rw [lt_iff_toNat_lt] at lower
      omega
    rw [and_iff_right below, ← negative]
    constructor
    · rintro ⟨difference, subtracted⟩
      unfold Address.sub at subtracted
      dsimp only at subtracted
      split at subtracted
      next signs => exact signs.1.resolve_left (lt_asymm lower)
      next => cases subtracted
    · intro small
      exact ⟨_, by rw [Address.sub, if_pos ⟨.inr small, .inl lower⟩]⟩

theorem Address.less_strictTotal : OrderedMap.StrictTotal Address.less where
  irrefl key := by simp [Address.less]
  trans := by
    intro first second third
    simpa [Address.less] using lt_trans
  total := by
    intro first second
    simp only [Address.less, decide_eq_false_iff_not, not_lt]
    exact fun above below => le_antisymm below above

namespace StatementEntry

theorem less_iff {self other : StatementEntry} : self.less other = true ↔
    self.dmPath < other.dmPath ∨ (self.dmPath = other.dmPath ∧
      (self.dmLine < other.dmLine ∨ (self.dmLine = other.dmLine ∧ self.dmColumn < other.dmColumn))) := by
  unfold less
  by_cases lower : self.dmPath < other.dmPath
  · simp [lower]
  · by_cases higher : other.dmPath < self.dmPath
    · simp [lower, higher, (String.ne_of_lt higher).symm]
    · have same : self.dmPath = other.dmPath :=
        String.le_antisymm (String.not_lt.mp higher) (String.not_lt.mp lower)
      rw [if_neg lower, if_neg higher, or_iff_right lower, and_iff_right same]
      simp only [Int32.lt_iff_toInt_lt, ← Int32.toInt_inj]
      split
      · simp [*]
      · split
        · simp only [Bool.false_eq_true, false_iff]
          omega
        · rw [decide_eq_true_eq]
          omega

theorem less_strictTotal : OrderedMap.StrictTotal less where
  irrefl key := by
    rw [Bool.eq_false_iff, ne_eq, less_iff]
    simp
  trans := by
    intro first second third
    simp only [less_iff, Int32.lt_iff_toInt_lt, ← Int32.toInt_inj]
    rintro (below | ⟨same, one⟩) (belowNext | ⟨sameNext, two⟩)
    · exact .inl (String.lt_trans below belowNext)
    · exact .inl (sameNext ▸ below)
    · exact .inl (same ▸ belowNext)
    · exact .inr ⟨same.trans sameNext, by omega⟩
  total := by
    intro first second notBelow notAbove
    rw [Bool.eq_false_iff, ne_eq, less_iff] at notBelow notAbove
    simp only [not_or, not_and] at notBelow notAbove
    have path := String.le_antisymm (String.not_lt.mp notAbove.1) (String.not_lt.mp notBelow.1)
    have below := notBelow.2 path
    have above := notAbove.2 path.symm
    simp only [Int32.lt_iff_toInt_lt, ← Int32.toInt_inj] at below above
    have line : first.dmLine = second.dmLine := by
      rw [← Int32.toInt_inj]
      omega
    have column : first.dmColumn = second.dmColumn := by
      rw [← Int32.toInt_inj]
      rw [line] at below above
      omega
    cases first
    cases second
    simp_all

end StatementEntry

namespace SymbolTable

def Accepted (dmRange range : AddressRange) : Prop :=
  range.dmBegin < range.dmEnd ∧ dmRange.dmBegin ≤ range.dmBegin ∧ range.dmEnd ≤ dmRange.dmEnd

theorem doesContain_last {dmRange : AddressRange} {dmBegin dmEnd : Address} (ordered : dmBegin < dmEnd) :
    (dmRange.doesContain dmBegin = true ∧ dmRange.doesContain (dmEnd - 1) = true) ↔
      Accepted dmRange ⟨dmBegin, dmEnd⟩ := by
  have one : (1 : UInt64) ≤ dmEnd := by
    rw [le_iff_toNat_le, toNat_one]
    rw [lt_iff_toNat_lt] at ordered
    omega
  simp only [Accepted, Interval.doesContain_iff, le_iff_toNat_le, lt_iff_toNat_lt,
    toNat_sub_of_le one, toNat_one]
  rw [lt_iff_toNat_lt] at ordered
  omega

theorem sub_one_iff {address : Address} (positive : 0 < address.toNat) :
    (∃ last, Address.sub address 1 = .ok last) ↔ address.toNat ≤ 2 ^ 63 := by
  have one : (1 : UInt64) ≤ address := by
    rw [le_iff_toNat_le, toNat_one]
    omega
  constructor
  · rintro ⟨last, subtracted⟩
    have near := (Address.sub_eq_ok one subtracted).2
    rw [toNat_one] at near
    omega
  · intro low
    exact ⟨_, Address.sub_of_le one (by rw [toNat_one]; omega)⟩

section

variable {self range : AddressRange} (nonempty : range.dmBegin < range.dmEnd)

include nonempty

theorem doesContainRange_returns_iff : (∃ contained, self.doesContainRange range = .ok contained) ↔
    (self.doesContain range.dmBegin = true → range.dmEnd.toNat ≤ 2 ^ 63) := by
  have positive : 0 < range.dmEnd.toNat := by
    rw [lt_iff_toNat_lt] at nonempty
    omega
  unfold AddressRange.doesContainRange
  by_cases inside : self.doesContain range.dmBegin = true
  · rw [if_pos inside, imp_iff_right inside, ← sub_one_iff positive]
    constructor
    · rintro ⟨_, ran⟩
      obtain ⟨last, subtracted, -⟩ := bind_eq_ok.mp ran
      exact ⟨last, subtracted⟩
    · rintro ⟨last, subtracted⟩
      exact ⟨_, by rw [subtracted, ok_bind]; rfl⟩
  · rw [if_neg inside]
    exact ⟨fun _ impossible => absurd impossible inside, fun _ => ⟨false, rfl⟩⟩

theorem doesContainRange_eq_ok {contained : Bool} (ran : self.doesContainRange range = .ok contained) :
    contained = true ↔ Accepted self range := by
  have exact := @doesContain_last self _ _ nonempty
  unfold AddressRange.doesContainRange at ran
  split at ran
  next inside =>
    obtain ⟨last, subtracted, answered⟩ := bind_eq_ok.mp ran
    rw [Address.toUInt64_of_sub subtracted] at answered
    obtain rfl := Except.ok.inj answered
    rw [← exact, and_iff_right inside]
  next outside =>
    obtain rfl := Except.ok.inj ran
    rw [← exact]
    simp [outside]

end

theorem accept_returns_iff {table : SymbolTable} {dmBegin dmEnd : Address} :
    (∃ accepted, table.accept dmBegin dmEnd = .ok accepted) ↔
      (dmBegin < dmEnd → table.dmRange.doesContain dmBegin = true → dmEnd.toNat ≤ 2 ^ 63) := by
  unfold accept
  split
  next empty => exact ⟨fun _ ordered => absurd ordered (not_lt.mpr empty), fun _ => ⟨none, rfl⟩⟩
  next nonempty =>
    have ordered := not_le.mp nonempty
    rw [imp_iff_right ordered, ← @doesContainRange_returns_iff table.dmRange ⟨dmBegin, dmEnd⟩ ordered]
    simp only [Interval.make_eq_ok.mpr ⟨ordered, rfl⟩, ok_bind]
    constructor
    · rintro ⟨_, ran⟩
      obtain ⟨contained, contains, -⟩ := bind_eq_ok.mp ran
      exact ⟨contained, contains⟩
    · rintro ⟨contained, contains⟩
      exact ⟨_, by rw [contains, ok_bind]; rfl⟩

theorem accept_eq_ok {self : SymbolTable} {dmBegin dmEnd : Address} {accepted : Option AddressRange}
    (ran : self.accept dmBegin dmEnd = .ok accepted) :
    (accepted = some ⟨dmBegin, dmEnd⟩ ∧ Accepted self.dmRange ⟨dmBegin, dmEnd⟩) ∨
      (accepted = none ∧ ¬ Accepted self.dmRange ⟨dmBegin, dmEnd⟩) := by
  unfold accept at ran
  split at ran
  next empty =>
    cases ran
    exact .inr ⟨rfl, fun isAccepted => absurd isAccepted.1 (not_lt.mpr empty)⟩
  next nonempty =>
    have ordered := not_le.mp nonempty
    simp only [bind_eq_ok, Interval.make_eq_ok] at ran
    obtain ⟨range, ⟨-, rfl⟩, contained, contains, returned⟩ := ran
    have exact := doesContainRange_eq_ok ordered contains
    obtain rfl := Except.ok.inj returned
    cases contained with
    | true => exact .inl ⟨rfl, exact.mp rfl⟩
    | false => exact .inr ⟨rfl, fun isAccepted => absurd (exact.mpr isAccepted) (by simp)⟩

def Call.bounds : Call → Address × Address
  | .addFunction dmBegin dmEnd _ => (dmBegin, dmEnd)
  | .addLoop dmBegin dmEnd _ => (dmBegin, dmEnd)
  | .addStatement dmBegin dmEnd _ _ _ => (dmBegin, dmEnd)

def Call.Returns (dmRange : AddressRange) (call : Call) : Prop :=
  call.bounds.1 < call.bounds.2 → dmRange.doesContain call.bounds.1 = true → call.bounds.2.toNat ≤ 2 ^ 63

theorem step_returns_iff {table : SymbolTable} {call : Call} :
    (∃ next, call.step table = some next) ↔ call.Returns table.dmRange := by
  have accepts : (∃ next, call.step table = some next) ↔
      ∃ accepted, table.accept call.bounds.1 call.bounds.2 = .ok accepted := by
    simp only [Call.step, toOption_eq_some]
    constructor
    · rintro ⟨next, ran⟩
      cases call <;> exact (bind_eq_ok.mp ran).imp fun _ parts => parts.1
    · rintro ⟨accepted, decided⟩
      cases call with
      | addFunction dmBegin dmEnd name =>
        simp only [Call.bounds] at decided
        simp only [Call.perform, addFunction, decided, ok_bind]
        cases accepted with
        | none => exact ⟨_, rfl⟩
        | some range =>
          dsimp only
          split
          · exact ⟨_, rfl⟩
          · exact ⟨_, rfl⟩
      | addLoop dmBegin dmEnd head =>
        simp only [Call.bounds] at decided
        simp only [Call.perform, addLoop, decided, ok_bind]
        cases accepted <;> exact ⟨_, rfl⟩
      | addStatement dmBegin dmEnd path line column =>
        simp only [Call.bounds] at decided
        simp only [Call.perform, addStatement, decided, ok_bind]
        cases accepted <;> exact ⟨_, rfl⟩
  rw [accepts, accept_returns_iff]
  rfl

/-- Containment is what it should be, and the calls return, exactly where a range
that begins inside does not end in the upper half of the address space. -/
theorem doesContainRange_plain_iff {self range : AddressRange}
    (nonempty : range.dmBegin < range.dmEnd) (table : SymbolTable) (call : Call) :
    (self.doesContainRange range = .ok (decide (self.dmBegin ≤ range.dmBegin ∧ range.dmEnd ≤ self.dmEnd)) ↔
      (self.doesContain range.dmBegin = true → range.dmEnd.toNat ≤ 2 ^ 63)) ∧
    ((∃ next, call.step table = some next) ↔ call.Returns table.dmRange) := by
  refine ⟨?_, step_returns_iff⟩
  rw [← doesContainRange_returns_iff nonempty]
  constructor
  · exact fun ran => ⟨_, ran⟩
  · rintro ⟨contained, ran⟩
    have exact := doesContainRange_eq_ok nonempty ran
    rw [Accepted, and_iff_right nonempty] at exact
    rw [ran, Except.ok.injEq, Bool.eq_iff_iff, decide_eq_true_eq]
    exact exact

theorem doesContainRange_plain_lowerHalf :
    AddressRange.doesContainRange ⟨4096, 8192⟩ ⟨4096, 4104⟩ =
        .ok (decide ((4096 : Address) ≤ 4096 ∧ (4104 : Address) ≤ 8192)) ∧
      ∃ next, (Call.addFunction 4096 4104 "main").step (SymbolTable.new ⟨4096, 8192⟩) = some next := by
  obtain ⟨contains, calls⟩ := @doesContainRange_plain_iff ⟨4096, 8192⟩ ⟨4096, 4104⟩ (by decide)
    (SymbolTable.new ⟨4096, 8192⟩) (.addFunction 4096 4104 "main")
  exact ⟨contains.mpr fun _ => by decide, calls.mpr fun _ _ => by simp only [Call.bounds]; decide⟩

theorem upperHalf_asserts :
    AddressRange.doesContainRange ⟨0xffffffffff600000, 0xffffffffff601000⟩
        ⟨0xffffffffff600000, 0xffffffffff600800⟩ = .error .assertion ∧
      (Call.addFunction 0xffffffffff600000 0xffffffffff600800 "vgettimeofday").step
        (SymbolTable.new ⟨0xffffffffff600000, 0xffffffffff601000⟩) = none :=
  ⟨by rfl, by rfl⟩

def LoopAdded (dmRange : AddressRange) (calls : List Call) (head : Address) (range : AddressRange) :
    Prop :=
  Accepted dmRange range ∧ Call.addLoop range.dmBegin range.dmEnd head ∈ calls

def StatementAdded (dmRange : AddressRange) (calls : List Call) (statement : StatementEntry)
    (range : AddressRange) : Prop :=
  Accepted dmRange range ∧ Call.addStatement range.dmBegin range.dmEnd statement.dmPath
    statement.dmLine statement.dmColumn ∈ calls

structure Holds (dmRange : AddressRange) (calls : List Call) (table : SymbolTable) : Prop where
  range : table.dmRange = dmRange
  functions : ∀ entry ∈ table.dmFunctions, Accepted dmRange entry.1
  loops : OrderedMap.Collects Address.less table.dmLoops (LoopAdded dmRange calls)
  loopCount : table.dmLoops.length ≤ calls.length
  statements : OrderedMap.Collects StatementEntry.less table.dmStatements (StatementAdded dmRange calls)
  statementCount : table.dmStatements.length ≤ calls.length

section

variable {dmRange : AddressRange} {calls : List Call} {table : SymbolTable}

variable {range : AddressRange}

theorem loopAdded_snoc {call : Call} {head : Address} :
    LoopAdded dmRange (calls ++ [call]) head range ↔ LoopAdded dmRange calls head range ∨
      (Accepted dmRange range ∧ call = .addLoop range.dmBegin range.dmEnd head) := by
  simp only [LoopAdded, List.mem_append, List.mem_singleton, and_or_left]
  exact or_congr_right (and_congr_right fun _ => eq_comm)

theorem statementAdded_snoc {call : Call} {statement : StatementEntry} :
    StatementAdded dmRange (calls ++ [call]) statement range ↔ StatementAdded dmRange calls statement range ∨
      (Accepted dmRange range ∧ call = .addStatement range.dmBegin range.dmEnd statement.dmPath
        statement.dmLine statement.dmColumn) := by
  simp only [StatementAdded, List.mem_append, List.mem_singleton, and_or_left]
  exact or_congr_right (and_congr_right fun _ => eq_comm)

theorem holds_new (dmRange : AddressRange) : Holds dmRange [] (SymbolTable.new dmRange) where
  range := rfl
  functions := by simp [SymbolTable.new]
  loops := .nil (by simp [LoopAdded])
  loopCount := Nat.le_refl _
  statements := .nil (by simp [StatementAdded])
  statementCount := Nat.le_refl _

theorem Holds.keeps (holds : Holds dmRange calls table) {call : Call} {next : SymbolTable}
    (range : next.dmRange = table.dmRange) (loops : next.dmLoops = table.dmLoops)
    (statements : next.dmStatements = table.dmStatements)
    (functions : ∀ entry ∈ next.dmFunctions, Accepted dmRange entry.1)
    (noLoop : ∀ head other, Accepted dmRange other → call ≠ .addLoop other.dmBegin other.dmEnd head)
    (noStatement : ∀ (statement : StatementEntry) other, Accepted dmRange other →
      call ≠ .addStatement other.dmBegin other.dmEnd statement.dmPath statement.dmLine statement.dmColumn) :
    Holds dmRange (calls ++ [call]) next := by
  have sameLoops : LoopAdded dmRange (calls ++ [call]) = LoopAdded dmRange calls := by
    funext head other
    rw [eq_iff_iff, loopAdded_snoc, or_iff_left]
    exact fun ⟨isAccepted, same⟩ => noLoop head other isAccepted same
  have sameStatements : StatementAdded dmRange (calls ++ [call]) = StatementAdded dmRange calls := by
    funext statement other
    rw [eq_iff_iff, statementAdded_snoc, or_iff_left]
    exact fun ⟨isAccepted, same⟩ => noStatement statement other isAccepted same
  refine ⟨range.trans holds.range, functions, ?_, ?_, ?_, ?_⟩
  · rw [loops, sameLoops]
    exact holds.loops
  · rw [loops, List.length_append]
    exact holds.loopCount.trans (Nat.le_add_right _ _)
  · rw [statements, sameStatements]
    exact holds.statements
  · rw [statements, List.length_append]
    exact holds.statementCount.trans (Nat.le_add_right _ _)

theorem functions_insert {name : String}
    {entries : List (AddressRange × String)} (isAccepted : Accepted dmRange range)
    (functions : ∀ entry ∈ entries, Accepted dmRange entry.1) :
    ∀ entry ∈ OrderedMap.insert AddressRange.less range name entries, Accepted dmRange entry.1 := by
  intro entry member
  rcases OrderedMap.key_of_mem_upsert member with same | ⟨old, present, same⟩
  · rw [same]
    exact isAccepted
  · rw [← same]
    exact functions old present

section

variable {next : SymbolTable} {dmBegin dmEnd : Address} (holds : Holds dmRange calls table)

include holds

theorem Holds.addFunction {name : String} (ran : table.addFunction dmBegin dmEnd name = .ok next) :
    Holds dmRange (calls ++ [.addFunction dmBegin dmEnd name]) next := by
  have sameRange := holds.range
  have functions : next.dmRange = table.dmRange ∧ next.dmLoops = table.dmLoops ∧
      next.dmStatements = table.dmStatements ∧
      ∀ entry ∈ next.dmFunctions, Accepted dmRange entry.1 := by
    obtain ⟨accepted, decided, continued⟩ := bind_eq_ok.mp ran
    rcases accept_eq_ok decided with ⟨rfl, isAccepted⟩ | ⟨rfl, -⟩
    · rw [sameRange] at isAccepted
      dsimp only at continued
      split at continued
      next =>
        obtain rfl := Except.ok.inj continued
        exact ⟨rfl, rfl, rfl, holds.functions⟩
      next =>
        obtain rfl := Except.ok.inj continued
        exact ⟨rfl, rfl, rfl, functions_insert isAccepted holds.functions⟩
    · obtain rfl := Except.ok.inj continued
      exact ⟨rfl, rfl, rfl, holds.functions⟩
  obtain ⟨range, loops, statements, accepted⟩ := functions
  exact holds.keeps range loops statements accepted (by simp) (by simp)

theorem Holds.addLoop {head : Address} (ran : table.addLoop dmBegin dmEnd head = .ok next) :
    Holds dmRange (calls ++ [.addLoop dmBegin dmEnd head]) next := by
  have sameRange := holds.range
  obtain ⟨accepted, decided, continued⟩ := bind_eq_ok.mp ran
  rcases accept_eq_ok decided with ⟨rfl, isAccepted⟩ | ⟨rfl, discarded⟩
  · rw [sameRange] at isAccepted
    obtain rfl := Except.ok.inj continued
    refine ⟨sameRange, holds.functions, ?_, ?_, ?_, ?_⟩
    · refine holds.loops.upsert Address.less_strictTotal fun other range => ?_
      rw [loopAdded_snoc]
      refine or_congr_right ⟨?_, ?_⟩
      · rintro ⟨-, same⟩
        cases same
        exact ⟨rfl, rfl⟩
      · rintro ⟨rfl, rfl⟩
        exact ⟨isAccepted, rfl⟩
    · rw [List.length_append]
      exact OrderedMap.length_upsert_le.trans (Nat.succ_le_succ holds.loopCount)
    · have same : StatementAdded dmRange (calls ++ [.addLoop dmBegin dmEnd head]) =
          StatementAdded dmRange calls := by
        funext statement range
        simp [statementAdded_snoc]
      rw [same]
      exact holds.statements
    · rw [List.length_append]
      exact holds.statementCount.trans (Nat.le_add_right _ _)
  · rw [sameRange] at discarded
    obtain rfl := Except.ok.inj continued
    refine holds.keeps rfl rfl rfl holds.functions (fun other range isAccepted same => ?_) (by simp)
    cases same
    exact discarded isAccepted

theorem Holds.addStatement {path : String} {line column : Int32}
    (ran : table.addStatement dmBegin dmEnd path line column = .ok next) :
    Holds dmRange (calls ++ [.addStatement dmBegin dmEnd path line column]) next := by
  have sameRange := holds.range
  obtain ⟨accepted, decided, continued⟩ := bind_eq_ok.mp ran
  rcases accept_eq_ok decided with ⟨rfl, isAccepted⟩ | ⟨rfl, discarded⟩
  · rw [sameRange] at isAccepted
    obtain rfl := Except.ok.inj continued
    refine ⟨sameRange, holds.functions, ?_, ?_, ?_, ?_⟩
    · have same : LoopAdded dmRange (calls ++ [.addStatement dmBegin dmEnd path line column]) =
          LoopAdded dmRange calls := by
        funext head range
        simp [loopAdded_snoc]
      rw [same]
      exact holds.loops
    · rw [List.length_append]
      exact holds.loopCount.trans (Nat.le_add_right _ _)
    · refine holds.statements.upsert StatementEntry.less_strictTotal fun other range => ?_
      rw [statementAdded_snoc]
      refine or_congr_right ⟨?_, ?_⟩
      · rintro ⟨-, same⟩
        cases same
        exact ⟨rfl, rfl⟩
      · rintro ⟨rfl, rfl⟩
        exact ⟨isAccepted, rfl⟩
    · rw [List.length_append]
      exact OrderedMap.length_upsert_le.trans (Nat.succ_le_succ holds.statementCount)
  · rw [sameRange] at discarded
    obtain rfl := Except.ok.inj continued
    refine holds.keeps rfl rfl rfl holds.functions (by simp) fun other range isAccepted same => ?_
    cases same
    exact discarded isAccepted

theorem Holds.step {call : Call} (ran : call.step table = some next) :
    Holds dmRange (calls ++ [call]) next := by
  rw [Call.step, toOption_eq_some] at ran
  cases call with
  | addFunction dmBegin dmEnd name => exact holds.addFunction ran
  | addLoop dmBegin dmEnd head => exact holds.addLoop ran
  | addStatement dmBegin dmEnd path line column => exact holds.addStatement ran

end

theorem holds_of_run (ran : Runs.run Call.step (SymbolTable.new dmRange) calls = some table) :
    Holds dmRange calls table :=
  Runs.run_history (Holds dmRange) (holds_new dmRange) (fun _ _ _ _ holds stepped => holds.step stepped) ran

theorem run_returns_iff : (∃ table, Runs.run Call.step (SymbolTable.new dmRange) calls = some table) ↔
    ∀ call ∈ calls, call.Returns dmRange := by
  constructor
  · rintro ⟨table, ran⟩ call member
    obtain ⟨before, after, rfl⟩ := List.append_of_mem member
    rw [Runs.run_append] at ran
    obtain ⟨middle, reached, continued⟩ := Option.bind_eq_some_iff.mp ran
    rw [Runs.run_cons] at continued
    obtain ⟨next, stepped, -⟩ := Option.bind_eq_some_iff.mp continued
    have returns := step_returns_iff.mp ⟨next, stepped⟩
    rwa [(holds_of_run reached).range] at returns
  · intro returns
    obtain ⟨table, ran, -⟩ := @Runs.run_total _ _ Call.step (SymbolTable.new dmRange)
      (Holds dmRange) (holds_new dmRange) calls fun seen call rest state split holds => by
        have returnsHere := returns call (by simp [split])
        rw [← holds.range] at returnsHere
        obtain ⟨next, stepped⟩ := step_returns_iff.mpr returnsHere
        exact ⟨next, stepped, holds.step stepped⟩
    exact ⟨table, ran⟩

end

end SymbolTable

end OpenSpeedShop
