import OpenSpeedShop.Framework.CompressDatabaseCore
import OpenSpeedShop.Library.Turns

/-!
The search for the symbols of sampled addresses: which functions and statements it
marks, and that what it gathers does not depend on what was gathered before.
-/

namespace OpenSpeedShop

open Fallible Turns
open PCBuffer (add hashTableSize)

namespace CompressDatabase

section

variable (environment : Environment) (tables : ExperimentTables)

def Resolves (address : Address) (thread function : Entry) : Prop :=
  ∃ statements, Thread.getFunctionAndStatementsAt tables.databases thread address =
    .ok (some function, statements)

def Examined (threads : List Entry) (address : Address) (thread : Entry) : Prop :=
  Reached (fun other => ∃ function, Resolves tables address other function) threads thread

def nameOf (function : Entry) : String :=
  Function.getName environment.demangle tables.databases function

def Named (threads : List Entry) (seen : List Address) (name : String) : Prop :=
  ∃ address ∈ seen, ∃ thread function, Examined tables threads address thread ∧
    Resolves tables address thread function ∧ nameOf environment tables function = name

/-- The range whose first and last addresses are looked at: that of a function whose name is
new, and otherwise an empty one at address zero. -/
inductive RangeAt (known : String → Prop) (address : Address) (thread : Entry) : AddressRange → Prop
  | new {function : Entry} {range : AddressRange} (resolves : Resolves tables address thread function)
      (isNew : ¬ known (nameOf environment tables function))
      (ran : Function.getAddressRange tables.databases function = .ok range) :
      RangeAt known address thread range
  | zero (old : ∀ function, Resolves tables address thread function →
      known (nameOf environment tables function)) : RangeAt known address thread default

inductive StatementAt (known : String → Prop) (address : Address) (thread statement : Entry) : Prop
  | sampled {function : Option Entry} {statements : Finset Entry}
      (ran : Thread.getFunctionAndStatementsAt tables.databases thread address =
        .ok (function, statements)) (member : statement ∈ statements)
  | bound {range : AddressRange} {bound : Address} {statements : Finset Entry}
      (rangeAt : RangeAt environment tables known address thread range)
      (isBound : bound = range.dmBegin ∨ bound = range.dmEnd)
      (ran : Thread.getStatementsAt tables.databases thread bound environment.now = .ok statements)
      (member : statement ∈ statements)

def AddsFunction (known : String → Prop) (threads : List Entry) (address : Address)
    (function : Entry) : Prop :=
  ∃ thread, Examined tables threads address thread ∧ Resolves tables address thread function ∧
    ¬ known (nameOf environment tables function)

def AddsStatement (known : String → Prop) (threads : List Entry) (address : Address)
    (statement : Entry) : Prop :=
  ∃ thread, Examined tables threads address thread ∧
    StatementAt environment tables known address thread statement

def FoundFunction (threads : List Entry) (addresses : List Address) (function : Entry) : Prop :=
  InTurn (fun seen address => AddsFunction environment tables
    (Named environment tables threads seen) threads address function) addresses

def FoundStatement (threads : List Entry) (addresses : List Address) (statement : Entry) : Prop :=
  InTurn (fun seen address => AddsStatement environment tables
    (Named environment tables threads seen) threads address statement) addresses

end

section

variable {environment : Environment} {tables : ExperimentTables} {marked next : Marked}

structure Adds (marked next : Marked) (names : String → Prop) (functions statements : Entry → Prop) :
    Prop where
  expaf : ∀ name, name ∈ next.expaf ↔ name ∈ marked.expaf ∨ names name
  expFuncs : ∀ function, function ∈ next.expFuncs ↔ function ∈ marked.expFuncs ∨ functions function
  expas : ∀ statement, statement ∈ next.expas ↔ statement ∈ marked.expas ∨ statements statement

variable {address : Address}

theorem resolves_iff {thread function : Entry} {found : Option Entry} {statements : Finset Entry}
    (ran : Thread.getFunctionAndStatementsAt tables.databases thread address = .ok (found, statements)) :
    Resolves tables address thread function ↔ found = some function := by
  constructor
  · rintro ⟨others, again⟩
    rw [ran] at again
    simp only [Except.ok.injEq, Prod.mk.injEq] at again
    exact again.1
  · rintro rfl
    exact ⟨statements, ran⟩

theorem markFunction_ok {thread : Entry} {found : Option Entry}
    {statements : Finset Entry} {frange : AddressRange}
    (looked : Thread.getFunctionAndStatementsAt tables.databases thread address = .ok (found, statements))
    (ran : markFunction environment tables marked found = .ok (frange, next)) :
    (∀ range, RangeAt environment tables (· ∈ marked.expaf) address thread range ↔ range = frange) ∧
      Adds marked next (fun name => ∃ function, Resolves tables address thread function ∧
          nameOf environment tables function = name)
        (fun function => Resolves tables address thread function ∧
          nameOf environment tables function ∉ marked.expaf) (fun _ => False) := by
  have resolves := fun function => @resolves_iff tables address thread function _ _ looked
  cases found with
  | none =>
    simp only [markFunction] at ran
    cases ran
    have nothing : ∀ function, ¬ Resolves tables address thread function := by
      simp [resolves]
    refine ⟨fun range => ⟨?_, ?_⟩, ⟨by simp [nothing], by simp [nothing], by simp⟩⟩
    · rintro (⟨found, -, -⟩ | -)
      · exact absurd found (nothing _)
      · rfl
    · rintro rfl
      exact .zero fun function found => absurd found (nothing function)
  | some function =>
    have only : ∀ other, Resolves tables address thread other ↔ other = function := by
      simp [resolves, eq_comm]
    simp only [markFunction] at ran
    split at ran
    next known =>
      cases ran
      refine ⟨fun range => ⟨?_, ?_⟩, ⟨fun name => ?_, fun other => ?_, by simp⟩⟩
      · rintro (⟨found, isNew, -⟩ | -)
        · rw [(only _).mp found] at isNew
          exact absurd known isNew
        · rfl
      · rintro rfl
        refine .zero fun other found => ?_
        rw [(only _).mp found]
        exact known
      · rw [iff_self_or]
        rintro ⟨other, found, rfl⟩
        rw [(only _).mp found]
        exact known
      · rw [iff_self_or]
        rintro ⟨found, isNew⟩
        rw [(only _).mp found] at isNew
        exact absurd known isNew
    next unknown =>
      simp only [bind_eq_ok] at ran
      obtain ⟨range, ranged, returned⟩ := ran
      cases returned
      refine ⟨fun other => ⟨?_, ?_⟩, ⟨fun name => ?_, fun other => ?_, by simp⟩⟩
      · rintro (⟨found, -, again⟩ | old)
        · rw [(only _).mp found, ranged] at again
          exact (Except.ok.inj again).symm
        · exact absurd (old function ((only _).mpr rfl)) unknown
      · rintro rfl
        exact .new ((only _).mpr rfl) unknown ranged
      · simp only [only, exists_eq_left, Finset.mem_insert]
        rw [or_comm, eq_comm]
        rfl
      · simp only [only, Finset.mem_insert]
        constructor
        · rintro (rfl | before)
          · exact .inr ⟨rfl, unknown⟩
          · exact .inl before
        · rintro (before | ⟨rfl, -⟩)
          · exact .inr before
          · exact .inl rfl

theorem examineThread_ok {thread : Entry} {foundFunc : Bool}
    (ran : examineThread environment tables address thread marked = .ok (foundFunc, next)) :
    (foundFunc = true ↔ ∃ function, Resolves tables address thread function) ∧ Adds marked next
        (fun name => ∃ function, Resolves tables address thread function ∧
          nameOf environment tables function = name)
        (fun function => Resolves tables address thread function ∧
          nameOf environment tables function ∉ marked.expaf)
        (StatementAt environment tables (· ∈ marked.expaf) address thread) := by
  simp only [examineThread, bind_eq_ok] at ran
  obtain ⟨_, _, ⟨found, statements⟩, looked, ⟨frange, middle⟩, markedFunction, atBegin, ranBegin,
    atEnd, ranEnd, returned⟩ := ran
  cases returned
  obtain ⟨ranges, adds⟩ := markFunction_ok looked markedFunction
  have resolves := fun function => @resolves_iff tables address thread function _ _ looked
  refine ⟨?_, adds.expaf, adds.expFuncs, fun statement => ?_⟩
  · simp [resolves, Option.isSome_iff_exists]
  · have same : statement ∈ middle.expas ↔ statement ∈ marked.expas := by
      simp [adds.expas]
    rw [Finset.mem_union, same, Finset.mem_union, Finset.mem_union]
    refine or_congr_right ⟨?_, ?_⟩
    · rintro (member | member | member)
      · exact .sampled looked member
      · exact .bound ((ranges _).mpr rfl) (.inl rfl) ranBegin member
      · exact .bound ((ranges _).mpr rfl) (.inr rfl) ranEnd member
    · rintro (⟨again, member⟩ | ⟨rangeAt, isBound, again, member⟩)
      · rw [looked] at again
        cases again
        exact .inl member
      · obtain rfl := (ranges _).mp rangeAt
        right
        rcases isBound with rfl | rfl
        · rw [ranBegin] at again
          cases again
          exact .inl member
        · rw [ranEnd] at again
          cases again
          exact .inr member

theorem examined_cons {first thread : Entry} {rest : List Entry} :
    Examined tables (first :: rest) address thread ↔ thread = first ∨
      ((∀ function, ¬ Resolves tables address first function) ∧ Examined tables rest address thread) := by
  rw [Examined, reached_cons, not_exists]
  rfl

theorem examineAddress_ok {threads : List Entry} : ∀ {marked next : Marked},
    examineAddress environment tables address threads marked = .ok next → Adds marked next
      (fun name => ∃ thread function, Examined tables threads address thread ∧
        Resolves tables address thread function ∧ nameOf environment tables function = name)
      (AddsFunction environment tables (· ∈ marked.expaf) threads address)
      (AddsStatement environment tables (· ∈ marked.expaf) threads address) := by
  induction threads with
  | nil =>
    intro marked next ran
    obtain rfl : marked = next := Except.ok.inj ran
    have none : ∀ thread, ¬ Examined tables [] address thread := fun _ => not_reached_nil
    exact ⟨by simp [none], by simp [AddsFunction, none], by simp [AddsStatement, none]⟩
  | cons thread rest ih =>
    intro marked next ran
    simp only [examineAddress, bind_eq_ok] at ran
    obtain ⟨⟨foundFunc, middle⟩, examined, others⟩ := ran
    obtain ⟨answers, adds⟩ := examineThread_ok examined
    cases foundFunc with
    | true =>
      obtain rfl : middle = next := Except.ok.inj others
      have found := answers.mp rfl
      have only : ∀ other, Examined tables (thread :: rest) address other ↔ other = thread := by
        intro other
        rw [examined_cons, or_iff_left_iff_imp]
        rintro ⟨nothing, -⟩
        obtain ⟨function, resolves⟩ := found
        exact absurd resolves (nothing function)
      refine ⟨fun name => ?_, fun function => ?_, fun statement => ?_⟩
      · simp [adds.expaf, only]
      · simp [adds.expFuncs, AddsFunction, only]
      · simp [adds.expas, AddsStatement, only]
    | false =>
      have nothing : ∀ function, ¬ Resolves tables address thread function := by
        intro function resolves
        exact absurd (answers.mpr ⟨function, resolves⟩) (by simp)
      have names : middle.expaf = marked.expaf := by
        ext name
        simp [adds.expaf, nothing]
      have later := ih others
      rw [names] at later
      have split : ∀ other, Examined tables (thread :: rest) address other ↔
          other = thread ∨ Examined tables rest address other := by
        intro other
        rw [examined_cons]
        simp [nothing]
      refine ⟨fun name => ?_, fun function => ?_, fun statement => ?_⟩
      · simp [later.expaf, names, split, nothing, or_and_right, exists_or]
      · simp [later.expFuncs, adds.expFuncs, AddsFunction, split, nothing, or_and_right, exists_or]
      · simp [later.expas, adds.expas, AddsStatement, split, or_and_right, exists_or, or_assoc]

theorem examine_ok {threads : List Entry} {addresses : List Address}
    (ran : examine environment tables threads addresses ⟨∅, ∅, ∅⟩ = .ok next) :
    (∀ function, function ∈ next.expFuncs ↔ FoundFunction environment tables threads addresses function) ∧
    ∀ statement, statement ∈ next.expas ↔ FoundStatement environment tables threads addresses statement := by
  have whole := @foldlM_history Address Marked Failure _ (fun seen marked =>
      (∀ name, name ∈ marked.expaf ↔ Named environment tables threads seen name) ∧
      (∀ function, function ∈ marked.expFuncs ↔ FoundFunction environment tables threads seen function) ∧
      ∀ statement, statement ∈ marked.expas ↔ FoundStatement environment tables threads seen statement)
    (fun seen marked address after related stepped => ?_) addresses [] ⟨∅, ∅, ∅⟩ next ?_ ran
  · exact whole.2
  · obtain ⟨names, functions, statements⟩ := related
    have adds := examineAddress_ok stepped
    have known : (· ∈ marked.expaf) = Named environment tables threads seen :=
      funext fun name => propext (names name)
    rw [known] at adds
    refine ⟨fun name => ?_, fun function => ?_, fun statement => ?_⟩
    · rw [adds.expaf, names]
      simp [Named, or_and_right, exists_or]
    · rw [adds.expFuncs, functions, FoundFunction, FoundFunction, inTurn_snoc]
    · rw [adds.expas, statements, FoundStatement, FoundStatement, inTurn_snoc]
  · exact ⟨by simp [Named], by simp [FoundFunction, not_inTurn_nil], by simp [FoundStatement, not_inTurn_nil]⟩

end

def firstSampled (environment : Environment) : List (List Entry) → Option (List Entry × List Address)
  | [] => none
  | threads :: rest =>
    match gather environment threads .empty with
    | .ok gathered =>
      if gathered.hasSampledData then some (threads, gathered.buffer.addresses)
      else firstSampled environment rest
    | .error _ => firstSampled environment rest

section

variable {environment : Environment}

structure Alike (one two : PCBuffer) : Prop where
  length : one.length = two.length
  hashTable : one.hashTable = two.hashTable
  hashed : ∀ bucket, 0 < one.hashTable bucket →
    one.pc (one.hashTable bucket - 1) = two.pc (one.hashTable bucket - 1)
  used : ∀ index < one.length.toNat, one.pc index = two.pc index

variable {one two : PCBuffer}

theorem Alike.addresses (alike : Alike one two) : one.addresses = two.addresses := by
  rw [PCBuffer.addresses, PCBuffer.addresses, ← alike.length]
  exact List.map_congr_left fun index member => alike.used index (List.mem_range.mp member)

theorem Alike.add (alike : Alike one two) (pc : UInt64) (bucket : Nat) :
    Alike (one.add pc bucket) (two.add pc bucket) := by
  refine ⟨?_, ?_, fun other placed => ?_, fun index inside => ?_⟩
  · simp [PCBuffer.add, alike.length]
  · simp [PCBuffer.add, alike.length, alike.hashTable]
  · simp only [PCBuffer.add, ← alike.length] at placed ⊢
    by_cases here : other = bucket
    · simp [here]
    · rw [Function.update_of_ne here] at placed ⊢
      by_cases last : one.hashTable other - 1 = one.length.toNat
      · simp [last]
      · rw [Function.update_of_ne last, Function.update_of_ne last]
        exact alike.hashed other placed
  · simp only [PCBuffer.add, ← alike.length] at inside ⊢
    by_cases last : index = one.length.toNat
    · simp [last]
    · rw [Function.update_of_ne last, Function.update_of_ne last]
      refine alike.used index ?_
      rw [UInt16.toNat_add] at inside
      have bound := Nat.mod_le (one.length.toNat + (1 : UInt16).toNat) (2 ^ 16)
      have unit : (1 : UInt16).toNat = 1 := rfl
      omega

theorem Alike.update (alike : Alike one two) {pc : UInt64}
    {result : Bool × PCBuffer} (ran : one.update pc = .ok result) :
    ∃ other, two.update pc = .ok other ∧ Alike result.2 other.2 := by
  have stops : PCBuffer.stops pc one = PCBuffer.stops pc two := by
    funext bucket
    rcases Nat.eq_zero_or_pos (one.hashTable bucket) with free | placed
    · simp [PCBuffer.stops, ← alike.hashTable, free]
    · simp [PCBuffer.stops, ← alike.hashTable, alike.hashed bucket placed]
  have holds : PCBuffer.holds pc one = PCBuffer.holds pc two := by
    funext bucket
    rcases Nat.eq_zero_or_pos (one.hashTable bucket) with free | placed
    · simp [PCBuffer.holds, ← alike.hashTable, free]
    · simp [PCBuffer.holds, ← alike.hashTable, alike.hashed bucket placed]
  simp only [PCBuffer.update, stops, holds] at ran ⊢
  cases scanned : LinearProbing.scan hashTableSize (PCBuffer.stops pc two)
      hashTableSize ((pc >>> 4).toNat % hashTableSize) with
  | none =>
    rw [scanned] at ran
    cases ran
  | some bucket =>
    rw [scanned] at ran
    dsimp only at ran ⊢
    split at ran
    next held =>
      cases ran
      exact ⟨_, by rw [if_pos held]; rfl, alike⟩
    next free =>
      cases ran
      exact ⟨_, by rw [if_neg free]; rfl, alike.add pc bucket⟩

theorem Alike.addAll {pcs : List UInt64} : ∀ {one two result : PCBuffer}, Alike one two →
    one.addAll pcs = .ok result → ∃ other, two.addAll pcs = .ok other ∧ Alike result other := by
  induction pcs with
  | nil =>
    intro one two result alike ran
    obtain rfl : one = result := Except.ok.inj ran
    exact ⟨two, rfl, alike⟩
  | cons pc rest ih =>
    intro one two result alike ran
    simp only [PCBuffer.addAll, List.foldlM_cons, bind_eq_ok] at ran ⊢
    obtain ⟨middle, ⟨first, updated, returned⟩, others⟩ := ran
    cases returned
    obtain ⟨second, updatedOther, alikeNext⟩ := alike.update updated
    obtain ⟨other, remaining, alikeLast⟩ := ih alikeNext others
    exact ⟨other, ⟨_, ⟨second, updatedOther, rfl⟩, remaining⟩, alikeLast⟩

variable {threads : List Entry}

theorem gather_alike : ∀ {one two result : Gathered},
    Alike one.buffer two.buffer → two.hasSampledData = one.hasSampledData →
    two.totalPcs = one.totalPcs → threads.foldlM (gatherThread environment) one = .ok result →
    ∃ other, threads.foldlM (gatherThread environment) two = .ok other ∧
      Alike result.buffer other.buffer ∧ other.hasSampledData = result.hasSampledData := by
  induction threads with
  | nil =>
    intro one two result alike data _ ran
    obtain rfl : one = result := Except.ok.inj ran
    exact ⟨two, rfl, alike, data⟩
  | cons thread rest ih =>
    intro one two result alike data total ran
    rw [List.foldlM_cons] at ran ⊢
    obtain ⟨middle, gathered, others⟩ := bind_eq_ok.mp ran
    unfold gatherThread at gathered
    split at gathered
    next => cases gathered
    next collector _ sampled =>
      obtain ⟨buffer, added, returned⟩ := bind_eq_ok.mp gathered
      obtain ⟨other, addedOther, alikeNext⟩ := alike.addAll added
      have stepped : gatherThread environment two thread =
          if buffer.length.toNat = one.totalPcs then .ok { two with buffer := other }
          else .ok ⟨other, true, buffer.length.toNat⟩ := by
        simp only [gatherThread, sampled, addedOther, ok_bind, ← alikeNext.length, total]
        rfl
      rw [stepped]
      split at returned
      next same =>
        cases returned
        rw [if_pos same, ok_bind]
        refine ih ?_ ?_ ?_ others
        · exact alikeNext
        · exact data
        · exact total
      next fresh =>
        cases returned
        rw [if_neg fresh, ok_bind]
        refine ih ?_ ?_ ?_ others
        · exact alikeNext
        · rfl
        · rfl

structure Clean (buffer : PCBuffer) : Prop where
  length : buffer.length = 0
  hashTable : buffer.hashTable = fun _ => 0

section

variable {buffer : PCBuffer} {gathered : Gathered} (clean : Clean buffer)
  (ran : gather environment threads buffer = .ok gathered)
include clean ran

theorem gather_clean : ∃ other, gather environment threads .empty = .ok other ∧
      other.hasSampledData = gathered.hasSampledData ∧
      other.buffer.addresses = gathered.buffer.addresses := by
  have alike : Alike buffer .empty := by
    refine ⟨clean.length, clean.hashTable, fun bucket placed => ?_, fun index inside => ?_⟩
    · simp [clean.hashTable] at placed
    · simp [clean.length] at inside
  obtain ⟨other, again, alikeLast, data⟩ :=
    @gather_alike environment threads ⟨buffer, false, 0⟩ ⟨.empty, false, 0⟩ gathered alike rfl rfl ran
  exact ⟨other, again, data, alikeLast.addresses.symm⟩

theorem gather_without (without : gathered.hasSampledData = false) : gathered.buffer.addresses = [] := by
  have whole := @foldlM_history Entry Gathered Failure (gatherThread environment)
    (fun _ gathered => gathered.buffer.length.toNat = gathered.totalPcs ∧
      (gathered.hasSampledData = false → gathered.totalPcs = 0))
    (fun _ gathered thread next related stepped => ?_) threads [] ⟨buffer, false, 0⟩ gathered ?_ ran
  · simp [PCBuffer.addresses, whole.1, whole.2 without]
  · unfold gatherThread at stepped
    split at stepped
    next => cases stepped
    next =>
      obtain ⟨buffer, -, returned⟩ := bind_eq_ok.mp stepped
      split at returned
      next same =>
        cases returned
        exact ⟨same, related.2⟩
      next =>
        cases returned
        exact ⟨rfl, fun impossible => by cases impossible⟩
  · simp [clean.length]

end

end

end CompressDatabase

end OpenSpeedShop
