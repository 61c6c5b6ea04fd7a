import OpenSpeedShop.Cli.StackMergeCore
import OpenSpeedShop.Cli.CallStacks
import OpenSpeedShop.Library.GreedyGroups

/-!
Call stacks that stand twice: which rows are merged, and when all that are equal.
-/

namespace OpenSpeedShop.StackMerge

open CallStacks (CallRow packVectorElements packVectorElements_eq)
open MetricExpressions (ViewInstruction)
open GreedyGroups

variable {Function LinkedObject Value : Type} [DecidableEq Function] [DecidableEq LinkedObject]

theorem mapM_isSome {Item Result : Type} {action : Item → Option Result} {items : List Item}
    (succeeds : ∀ item ∈ items, (action item).isSome) : ∃ results, items.mapM action = some results ∧
      List.Forall₂ (fun item result => item ∈ items ∧ action item = some result) items results := by
  induction items with
  | nil => exact ⟨[], rfl, List.Forall₂.nil⟩
  | cons item items ih =>
    obtain ⟨own, others⟩ := List.forall_mem_cons.mp succeeds
    obtain ⟨result, found⟩ := Option.isSome_iff_exists.mp own
    obtain ⟨results, done, each⟩ := ih others
    exact ⟨result :: results, by rw [List.mapM_cons, found, done]; rfl,
      List.Forall₂.cons ⟨List.mem_cons_self, found⟩
        (each.imp fun _ _ ⟨inside, made⟩ => ⟨List.mem_cons_of_mem _ inside, made⟩)⟩

theorem pairwise_of_forall₂ {First Second : Type} {relates : First → Second → Prop}
    {apart : First → First → Prop} {apart' : Second → Second → Prop} {firsts : List First}
    {seconds : List Second} (each : List.Forall₂ relates firsts seconds)
    (carries : ∀ first second first' second', relates first second → relates first' second' →
      apart first first' → apart' second second') (pairwise : firsts.Pairwise apart) :
    seconds.Pairwise apart' := by
  induction each with
  | nil => exact List.Pairwise.nil
  | @cons first second firsts seconds own others ih =>
    obtain ⟨head, tail⟩ := List.pairwise_cons.mp pairwise
    refine List.pairwise_cons.mpr ⟨fun other inside => ?_, ih tail⟩
    obtain ⟨place, less, rfl⟩ := List.getElem_of_mem inside
    have bound : place < firsts.length := others.length_eq ▸ less
    exact carries _ _ _ _ own (others.get bound less) (head _ (List.getElem_mem bound))

def sameStack : List (StackEntry Function LinkedObject) → List (StackEntry Function LinkedObject) → Bool
  | [], [] => true
  | entry :: stack, nentry :: nstack => matchEntry entry nentry && sameStack stack nstack
  | _, _ => false

theorem matchEntry_comm (entry nentry : StackEntry Function LinkedObject) :
    matchEntry entry nentry = matchEntry nentry entry := by
  cases entry <;> cases nentry <;> simp only [matchEntry, eq_comm]
  rw [Bool.or_comm (decide (_ = (0 : Int)))]

theorem matchEntry_self (entry : StackEntry Function LinkedObject) : matchEntry entry entry = true := by
  cases entry <;> simp [matchEntry]

theorem sameStack_comm (cs ncs : List (StackEntry Function LinkedObject)) :
    sameStack cs ncs = sameStack ncs cs := by
  induction cs generalizing ncs with
  | nil => cases ncs <;> rfl
  | cons entry stack ih =>
    cases ncs with
    | nil => rfl
    | cons nentry nstack => rw [sameStack, sameStack, matchEntry_comm, ih]

theorem sameStack_self (cs : List (StackEntry Function LinkedObject)) : sameStack cs cs = true := by
  induction cs with
  | nil => rfl
  | cons entry stack ih => rw [sameStack, matchEntry_self, ih, Bool.and_self]

variable {cs ncs : List (StackEntry Function LinkedObject)}

theorem length_of_sameStack (same : sameStack cs ncs = true) : cs.length = ncs.length := by
  induction cs generalizing ncs with
  | nil =>
    cases ncs with
    | nil => rfl
    | cons => exact absurd same Bool.false_ne_true
  | cons entry stack ih =>
    cases ncs with
    | nil => exact absurd same Bool.false_ne_true
    | cons nentry nstack =>
      rw [sameStack, Bool.and_eq_true] at same
      rw [List.length_cons, List.length_cons, ih same.2]

theorem all_matched_iff (sizes : cs.length = ncs.length) :
    (∀ entries ∈ cs.zip ncs, matchEntry entries.1 entries.2 = true) ↔ sameStack cs ncs = true := by
  induction cs generalizing ncs with
  | nil =>
    rw [List.eq_nil_of_length_eq_zero sizes.symm]
    simp [sameStack]
  | cons entry stack ih =>
    cases ncs with
    | nil => cases sizes
    | cons nentry nstack =>
      rw [List.zip_cons_cons, List.forall_mem_cons, ih (Nat.succ.inj sizes), sameStack, Bool.and_eq_true]

theorem matchCallStack_iff : (matchCallStack cs ncs ≥ 0 ∧ matchCallStack cs ncs = cs.length ∧
      matchCallStack cs ncs = ncs.length) ↔ sameStack cs ncs = true := by
  by_cases sizes : cs.length = ncs.length
  · have size : (cs.zip ncs).length = cs.length := by
      rw [List.length_zip]
      omega
    have place : (cs.zip ncs).findIdx (fun entries => !matchEntry entries.1 entries.2) <
        cs.length ↔ ¬sameStack cs ncs = true := by
      rw [← all_matched_iff sizes, ← size, List.findIdx_lt_length]
      simp
    unfold matchCallStack
    dsimp only
    by_cases same : sameStack cs ncs = true
    · have past := mt place.mp (not_not.mpr same)
      rw [if_neg (by omega)]
      refine iff_of_true ⟨by omega, by omega, by omega⟩ same
    · have before := place.mpr same
      rw [if_pos (by omega)]
      refine iff_of_false (fun all => ?_) same
      omega
  · refine iff_of_false (fun all => sizes ?_) (fun same => sizes (length_of_sameStack same))
    omega

def equalStacks (row other : StackRow Function LinkedObject Value) : Bool :=
  sameStack row.stack other.stack

def rank (row : StackRow Function LinkedObject Value) : Nat := row.stack.length

theorem equalStacks_self (row : StackRow Function LinkedObject Value) :
    equalStacks row row = true := sameStack_self row.stack

theorem equalStacks_comm (row other : StackRow Function LinkedObject Value) :
    equalStacks row other = equalStacks other row := sameStack_comm row.stack other.stack

theorem ranked_equalStacks : @Ranked (StackRow Function LinkedObject Value) equalStacks rank :=
  fun _ _ equal => length_of_sameStack equal

section

variable [Add Value] [Min Value] [Max Value]
variable {iv : List (Option (ViewInstruction Value))}
  {fieldRequirements : List (ViewInstruction Value)}

omit [Add Value] [Min Value] [Max Value] in
theorem isDuplicate_iff {cp ncp : StackRow Function LinkedObject Value} :
    isDuplicate fieldRequirements cp ncp = true ↔ sameStack cp.stack ncp.stack = true ∧
      matchFieldRequirements fieldRequirements cp.second ncp.second = true := by
  rw [isDuplicate, ← matchCallStack_iff]
  simp only [Bool.and_eq_true, decide_eq_true_eq, and_assoc]

def pattern (temps : List (Option Value)) : List Bool := temps.map Option.isSome

omit [DecidableEq Function] [DecidableEq LinkedObject] [Add Value] [Min Value] [Max Value] in
theorem isSome_at (temps : List (Option Value)) (place : Nat) :
    temps[place]?.join.isSome = (pattern temps)[place]?.getD false := by
  rw [pattern, List.getElem?_map]
  cases temps[place]? with
  | none => rfl
  | some temp => rfl

omit [DecidableEq Function] [DecidableEq LinkedObject] [Add Value] [Min Value] [Max Value] in
theorem matchFieldRequirements_congr {a b c : List (Option Value)} (same : pattern a = pattern c) :
    matchFieldRequirements fieldRequirements a b = matchFieldRequirements fieldRequirements c b := by
  simp only [matchFieldRequirements, isSome_at, same]

omit [DecidableEq Function] [DecidableEq LinkedObject] in
theorem isSome_of_accumulated {vp : Option (ViewInstruction Value)} {a b after : Option Value}
    (done : accumulateTemp vp a b = some after) : after.isSome = a.isSome := by
  cases found : vp.bind accumulator with
  | none =>
    cases a <;> cases b <;> simp only [accumulateTemp, found, Option.some.injEq] at done <;>
      exact congrArg Option.isSome done.symm
  | some accumulate =>
    cases a <;> cases b <;>
      simp only [accumulateTemp, found, Option.some.injEq, reduceCtorEq] at done <;>
      rw [← done]
    rfl

omit [DecidableEq Function] [DecidableEq LinkedObject] in
theorem pattern_of_accumulated {iv : List (Option (ViewInstruction Value))}
    {as bs after : List (Option Value)}
    (done : accumulatePreDefinedTemps iv as bs = some after) : pattern after = pattern as := by
  fun_induction accumulatePreDefinedTemps iv as bs generalizing after with
  | case1 vp iv a as b bs ih =>
    obtain ⟨first, own, others⟩ := Option.bind_eq_some_iff.mp done
    obtain ⟨rest, later, same⟩ := Option.bind_eq_some_iff.mp others
    obtain rfl : first :: rest = after := Option.some.inj same
    rw [pattern, List.map_cons, isSome_of_accumulated own, pattern, List.map_cons]
    exact congrArg _ (ih later)
  | case2 => cases done
  | case3 => rw [Option.some.inj done]

def mergeRow (iv : List (Option (ViewInstruction Value)))
    (cp ncp : StackRow Function LinkedObject Value) : Option (StackRow Function LinkedObject Value) :=
  (accumulatePreDefinedTemps iv cp.second ncp.second).map fun second => { cp with second := second }

def SameKey (cp other : StackRow Function LinkedObject Value) : Prop :=
  cp.stack = other.stack ∧ pattern cp.second = pattern other.second

omit [DecidableEq Function] [DecidableEq LinkedObject] in
theorem sameKey_of_merged {cp ncp after : StackRow Function LinkedObject Value}
    (done : mergeRow iv cp ncp = some after) : SameKey after cp := by
  obtain ⟨second, accumulated, rfl⟩ := Option.map_eq_some_iff.mp done
  exact ⟨rfl, pattern_of_accumulated accumulated⟩

variable {cp other : StackRow Function LinkedObject Value}

omit [Add Value] [Min Value] [Max Value] in
theorem isDuplicate_congr (key : SameKey cp other) (ncp : StackRow Function LinkedObject Value) :
    isDuplicate fieldRequirements cp ncp = isDuplicate fieldRequirements other ncp := by
  rw [isDuplicate, isDuplicate, key.1, matchFieldRequirements_congr key.2]

omit [Add Value] [Min Value] [Max Value] in
theorem taken_congr (key : SameKey cp other) (rows : List (StackRow Function LinkedObject Value)) :
    taken (isDuplicate fieldRequirements) rank cp rows =
        taken (isDuplicate fieldRequirements) rank other rows ∧
      left (isDuplicate fieldRequirements) rank cp rows =
        left (isDuplicate fieldRequirements) rank other rows := by
  induction rows with
  | nil => exact ⟨rfl, rfl⟩
  | cons row rows ih =>
    have size : rank cp = rank other := congrArg List.length key.1
    simp only [taken, left, size, isDuplicate_congr key, ih, and_self]

omit [Add Value] [Min Value] [Max Value] in
theorem ranked : @Ranked (StackRow Function LinkedObject Value) (isDuplicate fieldRequirements) rank :=
  fun _ _ joined => length_of_sameStack (isDuplicate_iff.mp joined).1

theorem combineEntry_some (cp ncp : StackRow Function LinkedObject Value)
    (rest : List (Option (StackRow Function LinkedObject Value))) :
    combineEntry iv fieldRequirements cp (some ncp :: rest) =
      if rank ncp < rank cp then some (cp, some ncp :: rest)
      else if isDuplicate fieldRequirements cp ncp then (mergeRow iv cp ncp).bind fun cp =>
          (combineEntry iv fieldRequirements cp rest).map fun after => (after.1, none :: after.2)
      else (combineEntry iv fieldRequirements cp rest).map fun after => (after.1, some ncp :: after.2) := by
  rw [combineEntry]
  refine if_congr Iff.rfl rfl ?_
  by_cases joined : isDuplicate fieldRequirements cp ncp = true
  · have sizes : ¬cp.stack.length ≠ ncp.stack.length := not_not.mpr (ranked cp ncp joined)
    rw [if_neg sizes, if_pos joined, if_pos joined, mergeRow]
    cases accumulatePreDefinedTemps iv cp.second ncp.second with
    | none => rfl
    | some second =>
      dsimp only [Option.bind_eq_bind, Option.bind_some, Option.map_some]
      cases combineEntry iv fieldRequirements { cp with second } rest <;> rfl
  · rw [if_neg joined, if_neg joined, ite_self]
    cases combineEntry iv fieldRequirements cp rest <;> rfl

variable (iv fieldRequirements)

theorem combineEntry_eq (items : List (Option (StackRow Function LinkedObject Value))) :
    ∀ cp, ∃ rest : List (Option (StackRow Function LinkedObject Value)),
      rest.filterMap id = left (isDuplicate fieldRequirements) rank cp (items.filterMap id) ∧
      rest.length = items.length ∧ combineEntry iv fieldRequirements cp items =
        ((taken (isDuplicate fieldRequirements) rank cp (items.filterMap id)).foldlM
          (mergeRow iv) cp).map (·, rest) := by
  induction items with
  | nil => exact fun cp => ⟨[], rfl, rfl, rfl⟩
  | cons item items ih =>
    intro cp
    obtain ⟨rest, live, size, scanned⟩ := ih cp
    cases item with
    | none =>
      refine ⟨none :: rest, live, congrArg Nat.succ size, ?_⟩
      rw [combineEntry, scanned]
      change Option.bind (Option.map _ _) _ = Option.map _ (List.foldlM _ _
        (taken _ rank cp (items.filterMap id)))
      cases List.foldlM (mergeRow iv) cp
        (taken (isDuplicate fieldRequirements) rank cp (items.filterMap id)) <;> rfl
    | some ncp =>
      have shown : (some ncp :: items).filterMap id = ncp :: items.filterMap id := rfl
      rw [shown, combineEntry_some, taken, left]
      by_cases smaller : rank ncp < rank cp
      · rw [if_pos smaller, if_pos smaller, if_pos smaller]
        exact ⟨some ncp :: items, rfl, rfl, rfl⟩
      · rw [if_neg smaller, if_neg smaller, if_neg smaller]
        by_cases joined : isDuplicate fieldRequirements cp ncp = true
        · rw [if_pos joined, if_pos joined, if_pos joined]
          cases merged : mergeRow iv cp ncp with
          | none =>
            refine ⟨none :: rest, live, congrArg Nat.succ size, ?_⟩
            rw [List.foldlM_cons, merged]
            rfl
          | some after =>
            obtain ⟨rest, live, size, scanned⟩ := ih after
            obtain ⟨sameTaken, sameLeft⟩ := taken_congr (sameKey_of_merged merged) (items.filterMap id)
            refine ⟨none :: rest, live.trans sameLeft, congrArg Nat.succ size, ?_⟩
            rw [List.foldlM_cons, merged, Option.bind_some, scanned, Option.map_map, sameTaken]
            rfl
        · rw [if_neg joined, if_neg joined, if_neg joined]
          refine ⟨some ncp :: rest, congrArg (ncp :: ·) live, congrArg Nat.succ size, ?_⟩
          rw [scanned, Option.map_map]
          rfl

theorem combineEntries_some (n : Nat) (cp : StackRow Function LinkedObject Value)
    (rest : List (Option (StackRow Function LinkedObject Value))) :
    combineEntries iv fieldRequirements (n + 1) (some cp :: rest) =
      (combineEntry iv fieldRequirements cp rest).bind fun after =>
        (combineEntries iv fieldRequirements n after.2).map (some after.1 :: ·) := by
  rw [combineEntries]
  cases combineEntry iv fieldRequirements cp rest with
  | none => rfl
  | some after =>
    obtain ⟨first, others⟩ := after
    change (combineEntries iv fieldRequirements n others).bind _ = Option.map _ _
    cases combineEntries iv fieldRequirements n others <;> rfl

theorem combineEntries_eq (n : Nat) :
    ∀ items : List (Option (StackRow Function LinkedObject Value)), items.length ≤ n →
      (combineEntries iv fieldRequirements n items).map (List.filterMap id) =
        (groups (isDuplicate fieldRequirements) rank (items.filterMap id)).mapM fun group =>
          group.2.foldlM (mergeRow iv) group.1 := by
  induction n with
  | zero =>
    intro items short
    rw [List.eq_nil_of_length_eq_zero (Nat.le_zero.mp short)]
    rfl
  | succ n ih =>
    intro items short
    cases items with
    | nil => rfl
    | cons item items =>
      rw [List.length_cons] at short
      cases item with
      | none =>
        have later := ih items (by omega)
        rw [combineEntries]
        change Option.map _ (Option.bind _ _) = (groups _ rank (items.filterMap id)).mapM _
        rw [← later]
        cases combineEntries iv fieldRequirements n items <;> rfl
      | some cp =>
        obtain ⟨rest, live, size, scanned⟩ := combineEntry_eq iv fieldRequirements items cp
        have later := ih rest (by omega)
        have shown : (some cp :: items).filterMap id = cp :: items.filterMap id := rfl
        rw [combineEntries_some, scanned, shown, groups_cons, List.mapM_cons, ← live, ← later]
        cases (taken (isDuplicate fieldRequirements) rank cp (items.filterMap id)).foldlM (mergeRow iv) cp with
        | none => rfl
        | some first =>
          rw [Option.map_some, Option.bind_some]
          cases combineEntries iv fieldRequirements n rest <;> rfl

theorem combineDuplicateCallStacks_eq (rows : List (StackRow Function LinkedObject Value)) :
    combineDuplicateCallStacks iv fieldRequirements rows =
      (groups (isDuplicate fieldRequirements) rank rows).mapM fun group =>
        group.2.foldlM (mergeRow iv) group.1 := by
  have scanned := combineEntries_eq iv fieldRequirements rows.length (rows.map some) (by rw [List.length_map])
  have shown : (rows.map some).filterMap id = rows := by simp
  rw [shown] at scanned
  rw [combineDuplicateCallStacks, ← scanned]
  cases done : combineEntries iv fieldRequirements rows.length (rows.map some) with
  | none => rfl
  | some after => exact congrArg some (packVectorElements_eq _ (Nat.le_refl _))

end

section

variable [Add Value] [Min Value] [Max Value] {iv : List (Option (ViewInstruction Value))}

def accumulatorAt (iv : List (Option (ViewInstruction Value))) (temp : Nat) :
    Option (Value → Value → Value) := iv[temp]?.join.bind accumulator

def combined (accumulate : Option (Value → Value → Value)) : Option Value → Option Value → Option Value
  | some a, some b =>
    match accumulate with
    | some accumulate => some (accumulate a b)
    | none => some a
  | a, _ => a

omit [DecidableEq Function] [DecidableEq LinkedObject] [Add Value] [Min Value] [Max Value] in
theorem combined_none (a b : Option Value) : combined none a b = a := by
  cases a <;> cases b <;> rfl

def value (temp : Nat) (row : StackRow Function LinkedObject Value) : Option Value :=
  row.second[temp]?.join

variable {vp : Option (ViewInstruction Value)}

omit [DecidableEq Function] [DecidableEq LinkedObject] in
theorem combined_of_accumulated {a b after : Option Value}
    (done : accumulateTemp vp a b = some after) : after = combined (vp.bind accumulator) a b := by
  cases found : vp.bind accumulator with
  | none =>
    cases a <;> cases b <;> simp only [accumulateTemp, found, Option.some.injEq] at done <;>
      exact done.symm
  | some accumulate =>
    cases a <;> cases b <;>
      simp only [accumulateTemp, found, Option.some.injEq, reduceCtorEq] at done <;>
      exact done.symm

omit [DecidableEq Function] [DecidableEq LinkedObject] in
theorem accumulated_at {as bs after : List (Option Value)} (temp : Nat)
    (done : accumulatePreDefinedTemps iv as bs = some after) :
    after[temp]?.join = combined (accumulatorAt iv temp) as[temp]?.join bs[temp]?.join := by
  fun_induction accumulatePreDefinedTemps iv as bs generalizing after temp with
  | case1 vp iv a as b bs ih =>
    obtain ⟨first, own, others⟩ := Option.bind_eq_some_iff.mp done
    obtain ⟨rest, later, same⟩ := Option.bind_eq_some_iff.mp others
    obtain rfl : first :: rest = after := Option.some.inj same
    cases temp with
    | zero => exact combined_of_accumulated own
    | succ temp => exact ih temp later
  | case2 => cases done
  | case3 iv as bs both missing =>
    rw [← Option.some.inj done]
    cases as with
    | nil => rfl
    | cons a as =>
      cases iv with
      | nil => exact (combined_none _ _).symm
      | cons vp iv =>
        cases bs with
        | nil => exact absurd rfl (missing vp iv a as rfl rfl)
        | cons b bs => exact absurd rfl (both vp iv a as b bs rfl rfl)

def Accumulates (iv : List (Option (ViewInstruction Value))) (as bs : List (Option Value)) : Prop :=
  ∀ temp, temp < iv.length → temp < as.length → temp < bs.length ∧
    (accumulatorAt iv temp ≠ none → as[temp]?.join.isSome = bs[temp]?.join.isSome)

omit [DecidableEq Function] [DecidableEq LinkedObject] in
theorem accumulateTemp_isSome {a b : Option Value} :
    (accumulateTemp vp a b).isSome ↔ (vp.bind accumulator ≠ none → a.isSome = b.isSome) := by
  cases found : vp.bind accumulator with
  | none => cases a <;> cases b <;> simp [accumulateTemp, found]
  | some accumulate => cases a <;> cases b <;> simp [accumulateTemp, found]

omit [DecidableEq Function] [DecidableEq LinkedObject] in
theorem accumulated_iff {as bs : List (Option Value)} :
    (accumulatePreDefinedTemps iv as bs).isSome ↔ Accumulates iv as bs := by
  fun_induction accumulatePreDefinedTemps iv as bs with
  | case1 vp iv a as b bs ih =>
    have both : (do
        let a ← accumulateTemp vp a b
        let as ← accumulatePreDefinedTemps iv as bs
        return a :: as : Option (List (Option Value))).isSome ↔
          (accumulateTemp vp a b).isSome ∧ (accumulatePreDefinedTemps iv as bs).isSome := by
      cases accumulateTemp vp a b <;> cases accumulatePreDefinedTemps iv as bs <;> simp
    rw [both, ih, accumulateTemp_isSome]
    constructor
    · rintro ⟨own, others⟩ temp inside present
      cases temp with
      | zero => exact ⟨Nat.zero_lt_succ _, own⟩
      | succ temp =>
        obtain ⟨shared, same⟩ := others temp (Nat.lt_of_succ_lt_succ inside) (Nat.lt_of_succ_lt_succ present)
        exact ⟨Nat.succ_lt_succ shared, same⟩
    · intro all
      refine ⟨(all 0 (Nat.zero_lt_succ _) (Nat.zero_lt_succ _)).2, fun temp inside present => ?_⟩
      obtain ⟨shared, same⟩ := all (temp + 1) (Nat.succ_lt_succ inside) (Nat.succ_lt_succ present)
      exact ⟨Nat.lt_of_succ_lt_succ shared, same⟩
  | case2 vp iv a as =>
    refine iff_of_false (by simp) fun all => ?_
    exact absurd (all 0 (Nat.zero_lt_succ _) (Nat.zero_lt_succ _)).1 (Nat.not_lt_zero _)
  | case3 iv as bs both missing =>
    refine iff_of_true rfl fun temp inside present => ?_
    cases iv with
    | nil => exact absurd inside (Nat.not_lt_zero _)
    | cons vp iv =>
      cases as with
      | nil => exact absurd present (Nat.not_lt_zero _)
      | cons a as =>
        cases bs with
        | nil => exact absurd rfl (missing vp iv a as rfl rfl)
        | cons b bs => exact absurd rfl (both vp iv a as b bs rfl rfl)

omit [DecidableEq Function] [DecidableEq LinkedObject] in
theorem accumulates_congr {as cs bs : List (Option Value)} (same : pattern as = pattern cs) :
    Accumulates iv as bs ↔ Accumulates iv cs bs := by
  have sizes : as.length = cs.length := by simpa [pattern] using congrArg List.length same
  simp only [Accumulates, isSome_at as, isSome_at cs, same, sizes]

variable {others : List (StackRow Function LinkedObject Value)}

omit [DecidableEq Function] [DecidableEq LinkedObject] in
theorem fold_isSome_iff : ∀ {first : StackRow Function LinkedObject Value},
      (others.foldlM (mergeRow iv) first).isSome ↔
        ∀ other ∈ others, Accumulates iv first.second other.second := by
  induction others with
  | nil => exact fun {first} => iff_of_true rfl fun _ inside => absurd inside List.not_mem_nil
  | cons other others ih =>
    intro first
    rw [List.foldlM_cons, List.forall_mem_cons, ← accumulated_iff]
    cases done : mergeRow iv first other with
    | none =>
      have refused : accumulatePreDefinedTemps iv first.second other.second = none :=
        Option.map_eq_none_iff.mp done
      simp [refused]
    | some after =>
      obtain ⟨second, accumulated, rfl⟩ := Option.map_eq_some_iff.mp done
      have same := pattern_of_accumulated accumulated
      rw [accumulated]
      simp only [Option.bind_eq_bind, Option.bind_some, ih, accumulates_congr same,
        Option.isSome_some, true_and]

omit [DecidableEq Function] [DecidableEq LinkedObject] in
theorem fold_merged : ∀ {first after : StackRow Function LinkedObject Value},
      others.foldlM (mergeRow iv) first = some after →
        after.first = first.first ∧ pattern after.second = pattern first.second ∧
          ∀ temp, value temp after = (others.map (value temp)).foldl
            (combined (accumulatorAt iv temp)) (value temp first) := by
  induction others with
  | nil =>
    intro first after done
    obtain rfl := Option.some.inj done
    exact ⟨rfl, rfl, fun _ => rfl⟩
  | cons other others ih =>
    intro first after done
    rw [List.foldlM_cons] at done
    obtain ⟨middle, own, later⟩ := Option.bind_eq_some_iff.mp done
    obtain ⟨entry, kept, values⟩ := ih later
    obtain ⟨second, accumulated, rfl⟩ := Option.map_eq_some_iff.mp own
    refine ⟨entry, kept.trans (pattern_of_accumulated accumulated), fun temp => ?_⟩
    rw [values, List.map_cons, List.foldl_cons]
    exact congrArg (fun start => List.foldl _ start _) (accumulated_at temp accumulated)

end

end OpenSpeedShop.StackMerge
