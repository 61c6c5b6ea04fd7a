import OpenSpeedShop.Framework.AcceptedRanges
import OpenSpeedShop.Framework.RangeMaps

/-!
The functions that a symbol table keeps: of overlapping ranges the first one to be
added, and an address finds the one that has it.
-/

namespace OpenSpeedShop

open Fallible

namespace SymbolTable

instance (dmRange range : AddressRange) : Decidable (Accepted dmRange range) :=
  inferInstanceAs (Decidable (_ ∧ _ ∧ _))

def keepFirst (dmRange : AddressRange) (kept : List (AddressRange × String)) :
    Call → List (AddressRange × String)
  | .addFunction dmBegin dmEnd name =>
    if Accepted dmRange ⟨dmBegin, dmEnd⟩ ∧ ∀ entry ∈ kept, ¬ AddressRange.Meets entry.1 ⟨dmBegin, dmEnd⟩ then
      kept ++ [(⟨dmBegin, dmEnd⟩, name)]
    else kept
  | .addLoop _ _ _ => kept
  | .addStatement _ _ _ _ _ => kept

def firstCome (dmRange : AddressRange) (calls : List Call) : List (AddressRange × String) :=
  calls.foldl (keepFirst dmRange) []

theorem firstCome_snoc (dmRange : AddressRange) (calls : List Call) (call : Call) :
    firstCome dmRange (calls ++ [call]) = keepFirst dmRange (firstCome dmRange calls) call := by
  simp [firstCome]

theorem length_firstCome_le (dmRange : AddressRange) (calls : List Call) :
    (firstCome dmRange calls).length ≤ calls.length := by
  induction calls using List.reverseRecOn with
  | nil => simp [firstCome]
  | append_singleton calls call ih =>
    have grows : (keepFirst dmRange (firstCome dmRange calls) call).length ≤
        (firstCome dmRange calls).length + 1 := by
      cases call with
      | addFunction dmBegin dmEnd name =>
        rw [keepFirst]
        split
        next => simp
        next => omega
      | addLoop dmBegin dmEnd head => exact Nat.le_succ _
      | addStatement dmBegin dmEnd path line column => exact Nat.le_succ _
    rw [firstCome_snoc, List.length_append, List.length_singleton]
    omega

structure KeepsFirst (dmRange : AddressRange) (calls : List Call) (table : SymbolTable) : Prop where
  range : table.dmRange = dmRange
  formed : RangeMap.Formed table.dmFunctions
  accepted : ∀ entry ∈ table.dmFunctions, Accepted dmRange entry.1
  exact : ∀ entry, entry ∈ table.dmFunctions ↔ entry ∈ firstCome dmRange calls

section

variable {dmRange : AddressRange} {calls : List Call} {table next : SymbolTable}

theorem keepsFirst_new (dmRange : AddressRange) : KeepsFirst dmRange [] (SymbolTable.new dmRange) where
  range := rfl
  formed := RangeMap.formed_nil
  accepted := by simp [SymbolTable.new]
  exact := by simp [SymbolTable.new, firstCome]

theorem KeepsFirst.keeps (keeps : KeepsFirst dmRange calls table) {call : Call}
    (range : next.dmRange = table.dmRange) (functions : next.dmFunctions = table.dmFunctions)
    (late : keepFirst dmRange (firstCome dmRange calls) call = firstCome dmRange calls) :
    KeepsFirst dmRange (calls ++ [call]) next := by
  refine ⟨range.trans keeps.range, ?_, ?_, ?_⟩
  · rw [functions]
    exact keeps.formed
  · rw [functions]
    exact keeps.accepted
  · rw [functions, firstCome_snoc, late]
    exact keeps.exact

theorem KeepsFirst.addFunction (keeps : KeepsFirst dmRange calls table) {dmBegin dmEnd : Address}
    {name : String} (ran : table.addFunction dmBegin dmEnd name = .ok next) :
    KeepsFirst dmRange (calls ++ [.addFunction dmBegin dmEnd name]) next := by
  obtain ⟨accepted, decided, continued⟩ := bind_eq_ok.mp ran
  rcases accept_eq_ok decided with ⟨rfl, isAccepted⟩ | ⟨rfl, discarded⟩
  · rw [keeps.range] at isAccepted
    dsimp only at continued
    split at continued
    next overlaps =>
      obtain rfl := Except.ok.inj continued
      obtain ⟨entry, member, meets⟩ := keeps.formed.find?_isSome_iff.mp overlaps
      refine keeps.keeps rfl rfl ?_
      rw [keepFirst, if_neg]
      rintro ⟨-, apart⟩
      exact apart entry ((keeps.exact entry).mp member) meets
    next free =>
      obtain rfl := Except.ok.inj continued
      have missing : OrderedMap.find? AddressRange.less ⟨dmBegin, dmEnd⟩ table.dmFunctions = none := by
        simpa using free
      have apart := keeps.formed.not_meets missing
      obtain ⟨formed, members⟩ := keeps.formed.insert isAccepted.1 missing name
      refine ⟨keeps.range, formed, fun entry member => ?_, fun entry => ?_⟩
      · rcases (members entry).mp member with rfl | old
        · exact isAccepted
        · exact keeps.accepted entry old
      · rw [members, firstCome_snoc, keepFirst, if_pos ⟨isAccepted, fun other present =>
          apart other ((keeps.exact other).mpr present)⟩, List.mem_append, List.mem_singleton,
          keeps.exact, or_comm]
  · rw [keeps.range] at discarded
    obtain rfl := Except.ok.inj continued
    refine keeps.keeps rfl rfl ?_
    rw [keepFirst, if_neg]
    exact fun both => discarded both.1

theorem KeepsFirst.step (keeps : KeepsFirst dmRange calls table) {call : Call}
    (ran : call.step table = some next) : KeepsFirst dmRange (calls ++ [call]) next := by
  rw [Call.step, toOption_eq_some] at ran
  cases call with
  | addFunction dmBegin dmEnd name => exact keeps.addFunction ran
  | addLoop dmBegin dmEnd head =>
    obtain ⟨accepted, -, continued⟩ := bind_eq_ok.mp ran
    cases accepted with
    | none =>
      obtain rfl := Except.ok.inj continued
      exact keeps.keeps rfl rfl rfl
    | some range =>
      obtain rfl := Except.ok.inj continued
      exact keeps.keeps rfl rfl rfl
  | addStatement dmBegin dmEnd path line column =>
    obtain ⟨accepted, -, continued⟩ := bind_eq_ok.mp ran
    cases accepted with
    | none =>
      obtain rfl := Except.ok.inj continued
      exact keeps.keeps rfl rfl rfl
    | some range =>
      obtain rfl := Except.ok.inj continued
      exact keeps.keeps rfl rfl rfl

theorem keepsFirst_of_run (ran : Runs.run Call.step (SymbolTable.new dmRange) calls = some table) :
    KeepsFirst dmRange calls table :=
  Runs.run_history (KeepsFirst dmRange) (keepsFirst_new dmRange)
    (fun _ _ _ _ keeps stepped => keeps.step stepped) ran

theorem keepFirst_accepted {dmRange : AddressRange} {kept : List (AddressRange × String)} {call : Call}
    (accepted : ∀ entry ∈ kept, Accepted dmRange entry.1) :
    ∀ entry ∈ keepFirst dmRange kept call, Accepted dmRange entry.1 := by
  cases call with
  | addFunction dmBegin dmEnd name =>
    intro entry member
    rw [keepFirst] at member
    split at member
    next both =>
      rcases List.mem_append.mp member with old | new
      · exact accepted entry old
      · rw [List.mem_singleton.mp new]
        exact both.1
    next => exact accepted entry member
  | addLoop dmBegin dmEnd head => exact accepted
  | addStatement dmBegin dmEnd path line column => exact accepted

theorem firstCome_accepted (dmRange : AddressRange) (calls : List Call) :
    ∀ entry ∈ firstCome dmRange calls, Accepted dmRange entry.1 := by
  induction calls using List.reverseRecOn with
  | nil => simp [firstCome]
  | append_singleton calls call ih =>
    rw [firstCome_snoc]
    exact keepFirst_accepted ih

end

/-- After any sequence of calls the ranges of the functions are accepted ones and
pairwise disjoint, those that came first; and an address finds the one that has it. -/
theorem functions_disjoint {dmRange : AddressRange} {calls : List Call} :
    ((∃ table, Runs.run Call.step (SymbolTable.new dmRange) calls = some table) ↔
      ∀ call ∈ calls, call.Returns dmRange) ∧
    ∀ table, Runs.run Call.step (SymbolTable.new dmRange) calls = some table →
      (∀ entry ∈ table.dmFunctions, Accepted dmRange entry.1) ∧
      table.dmFunctions.Pairwise (fun first second => first.1.dmEnd ≤ second.1.dmBegin) ∧
      (∀ entry, entry ∈ table.dmFunctions ↔ entry ∈ firstCome dmRange calls) ∧
      ∀ address entry,
        OrderedMap.find? AddressRange.less (AddressRange.ofValue address) table.dmFunctions =
          some entry ↔ entry ∈ table.dmFunctions ∧ entry.1.doesContain address = true := by
  refine ⟨run_returns_iff, fun table ran => ?_⟩
  have keeps := keepsFirst_of_run ran
  refine ⟨keeps.accepted, keeps.formed.sorted.imp AddressRange.less_eq_true.mp, keeps.exact, ?_⟩
  exact fun address entry => keeps.formed.find?_ofValue_iff

end SymbolTable

end OpenSpeedShop
