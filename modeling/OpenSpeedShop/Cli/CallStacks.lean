import OpenSpeedShop.Cli.CallStacksCore
import OpenSpeedShop.Library.RankedMerge
import Mathlib.Algebra.GroupWithZero.Nat

/-!
The call tree: the rows of a report after their stacks were expanded and combined.
-/

namespace OpenSpeedShop.CallStacks

open MetricExpressions (ViewInstruction)
open List (range' mem_map mem_cons_self length_cons sum_cons map_cons)

variable {Item : Type}

theorem takeNonNull_none {items : List (Option Item)}
    (missing : takeNonNull items = none) : items.filterMap id = [] := by
  induction items with
  | nil => rfl
  | cons item rest ih =>
    cases item with
    | some item => cases missing
    | none =>
      rw [takeNonNull, Option.map_eq_none_iff] at missing
      exact ih missing

theorem takeNonNull_some {items others : List (Option Item)} {item : Item} :
    takeNonNull items = some (item, others) →
      items.filterMap id = item :: others.filterMap id ∧ others.length = items.length := by
  induction items generalizing others with
  | nil =>
    intro missing
    cases missing
  | cons head rest ih =>
    intro found
    cases head with
    | some head =>
      obtain ⟨rfl, rfl⟩ := Prod.mk.inj (Option.some.inj found)
      exact ⟨rfl, rfl⟩
    | none =>
      rw [takeNonNull] at found
      obtain ⟨⟨taken, after⟩, inner, same⟩ := Option.map_eq_some_iff.mp found
      obtain ⟨rfl, rfl⟩ := Prod.mk.inj same
      obtain ⟨live, size⟩ := ih inner
      exact ⟨live, by rw [length_cons, length_cons, size]⟩

theorem packVectorElements_eq (n : Nat) : ∀ {items : List (Option Item)},
    items.length ≤ n → packVectorElements n items = items.filterMap id := by
  induction n with
  | zero =>
    intro items short
    rw [List.eq_nil_of_length_eq_zero (Nat.le_zero.mp short)]
    rfl
  | succ n ih =>
    intro items short
    cases items with
    | nil => rfl
    | cons item rest =>
      rw [length_cons] at short
      cases item with
      | some item =>
        rw [packVectorElements, ih (by omega)]
        rfl
      | none =>
        rw [packVectorElements]
        cases found : takeNonNull rest with
        | none => exact (takeNonNull_none found).symm
        | some taken =>
          obtain ⟨item, others⟩ := taken
          obtain ⟨live, size⟩ := takeNonNull_some found
          dsimp only
          rw [ih (by omega)]
          exact live.symm

variable {Frame Value : Type}

theorem zip_differs {cs ncs : List Frame} (same : cs.length = ncs.length) :
    (∃ frames ∈ cs.zip ncs, frames.1 ≠ frames.2) ↔ cs ≠ ncs := by
  induction cs generalizing ncs with
  | nil =>
    rw [List.eq_nil_of_length_eq_zero same.symm]
    simp
  | cons frame rest ih =>
    cases ncs with
    | nil => cases same
    | cons nframe nrest =>
      have tails := ih (Nat.succ.inj same)
      by_cases equal : frame = nframe
      · simp only [List.zip_cons_cons, List.mem_cons, exists_eq_or_imp, tails, equal]
        simp
      · simp [equal]

theorem matchCallStack_iff [DecidableEq Frame] {cs ncs : List Frame} (same : cs.length = ncs.length) :
    (0 ≤ matchCallStack cs ncs ∧ matchCallStack cs ncs = cs.length ∧
      matchCallStack cs ncs = ncs.length) ↔ cs = ncs := by
  have size : (cs.zip ncs).length = cs.length := by
    rw [List.length_zip]
    omega
  have differs := zip_differs same
  have place : (cs.zip ncs).findIdx (fun frames => frames.1 ≠ frames.2) < cs.length ↔ cs ≠ ncs := by
    rw [← differs, ← size, List.findIdx_lt_length]
    simp
  unfold matchCallStack
  dsimp only
  by_cases equal : cs = ncs
  · have past : ¬(cs.zip ncs).findIdx (fun frames => frames.1 ≠ frames.2) < cs.length :=
      fun less => place.mp less equal
    rw [if_neg (by omega)]
    refine iff_of_true ⟨by omega, by omega, by omega⟩ equal
  · have before := place.mpr equal
    rw [if_pos (by omega)]
    refine iff_of_false (fun all => ?_) equal
    omega

def requires (fieldRequirements : List (ViewInstruction Value)) (temps : Nat) : Bool :=
  fieldRequirements.any fun vp =>
    vp.opCode = .requireFieldEqual ∧ 0 ≤ vp.tmpIndex1 ∧ vp.tmpIndex1 < temps

variable {temps : Nat}

theorem matchFieldRequirements_eq (fieldRequirements : List (ViewInstruction Value))
    {a b : List Value} (left : a.length = temps) (right : b.length = temps) :
    matchFieldRequirements fieldRequirements a b = !requires fieldRequirements temps := by
  rw [matchFieldRequirements, requires, List.not_any_eq_all_not, left, right]
  simp

def SameTemps (temps : Nat) (items : List (Option (CallRow Frame Value))) : Prop :=
  ∀ row, some row ∈ items → row.second.length = temps

variable {rest : List (Option (CallRow Frame Value))}

theorem SameTemps.tail {item : Option (CallRow Frame Value)} (same : SameTemps temps (item :: rest)) :
    SameTemps temps rest :=
  fun row member => same row (List.mem_cons_of_mem _ member)

theorem SameTemps.cons {row : CallRow Frame Value} (size : row.second.length = temps)
    (same : SameTemps temps rest) : SameTemps temps (some row :: rest) := by
  intro other member
  cases member with
  | head => exact size
  | tail _ member => exact same other member

theorem SameTemps.cons_none (same : SameTemps temps rest) : SameTemps temps (none :: rest) := by
  intro other member
  cases member with
  | tail _ member => exact same other member

section

variable [Add Value] [Min Value] [Max Value] (iv : List (Option (ViewInstruction Value)))
  (fieldRequirements : List (ViewInstruction Value))

def mergeRows (cp ncp : CallRow Frame Value) : CallRow Frame Value :=
  { cp with second := accumulatePreDefinedTemps iv cp.second ncp.second }

theorem length_mergeRows (cp ncp : CallRow Frame Value) :
    (mergeRows iv cp ncp).second.length = cp.second.length :=
  List.length_mapIdx

variable [DecidableEq Frame]

variable {temps : Nat}

theorem combineEntry_absorbs (free : requires fieldRequirements temps = false)
    (items : List (Option (CallRow Frame Value))) : ∀ cp : CallRow Frame Value,
      cp.second.length = temps → SameTemps temps items →
      let after := combineEntry iv fieldRequirements cp items
      let absorbed := RankedMerge.absorb CallRow.stack List.length (mergeRows iv) cp (items.filterMap id)
      after.1 = absorbed.1 ∧ after.2.filterMap id = absorbed.2 ∧
        after.2.length = items.length ∧ after.1.second.length = temps ∧
        SameTemps temps after.2 := by
  induction items with
  | nil => exact fun cp size same => ⟨rfl, rfl, rfl, size, same⟩
  | cons item rest ih =>
    intro cp size same
    cases item with
    | none =>
      obtain ⟨first, live, length, sizeAfter, sameAfter⟩ := ih cp size same.tail
      rw [combineEntry]
      exact ⟨first, live, congrArg Nat.succ length, sizeAfter, sameAfter.cons_none⟩
    | some ncp =>
      have sizeNext := same ncp mem_cons_self
      have live : (some ncp :: rest).filterMap id = ncp :: rest.filterMap id := rfl
      rw [combineEntry, live, RankedMerge.absorb]
      by_cases shorter : ncp.stack.length < cp.stack.length
      · rw [if_pos shorter, if_pos shorter]
        exact ⟨rfl, rfl, rfl, size, same⟩
      · rw [if_neg shorter, if_neg shorter]
        by_cases equal : ncp.stack = cp.stack
        · have matched := (matchCallStack_iff (congrArg List.length equal.symm)).mpr equal.symm
          have fields := matchFieldRequirements_eq fieldRequirements size sizeNext
          rw [free] at fields
          obtain ⟨first, live, length, sizeAfter, sameAfter⟩ := ih (mergeRows iv cp ncp)
            (by rw [length_mergeRows, size]) same.tail
          rw [if_neg (by rw [equal]; simp), if_pos equal]
          dsimp only
          rw [if_pos ⟨matched.1, matched.2.1, matched.2.2, fields⟩]
          exact ⟨first, live, congrArg Nat.succ length, sizeAfter, sameAfter.cons_none⟩
        · obtain ⟨first, live, length, sizeAfter, sameAfter⟩ := ih cp size same.tail
          have unmatched : ¬(0 ≤ matchCallStack cp.stack ncp.stack ∧
              matchCallStack cp.stack ncp.stack = cp.stack.length ∧
              matchCallStack cp.stack ncp.stack = ncp.stack.length ∧
              matchFieldRequirements fieldRequirements cp.second ncp.second = true) := by
            rintro ⟨lower, left, right, _⟩
            have lengths : cp.stack.length = ncp.stack.length := by omega
            exact equal ((matchCallStack_iff lengths).mp ⟨lower, left, right⟩).symm
          have whole : combineEntry iv fieldRequirements cp (some ncp :: rest) =
              ((combineEntry iv fieldRequirements cp rest).1,
                some ncp :: (combineEntry iv fieldRequirements cp rest).2) := by
            rw [combineEntry, if_neg shorter]
            dsimp only
            rw [if_neg unmatched]
            split <;> rfl
          rw [combineEntry, if_neg shorter] at whole
          rw [whole, if_neg equal]
          refine ⟨first, congrArg (ncp :: ·) live, congrArg Nat.succ length, sizeAfter, ?_⟩
          exact sameAfter.cons sizeNext

theorem combineEntries_combines (free : requires fieldRequirements temps = false)
    (n : Nat) : ∀ items : List (Option (CallRow Frame Value)), items.length ≤ n →
      SameTemps temps items → (combineEntries iv fieldRequirements n items).filterMap id =
        RankedMerge.combine CallRow.stack List.length (mergeRows iv) n (items.filterMap id) ∧
      (combineEntries iv fieldRequirements n items).length = items.length := by
  induction n with
  | zero =>
    intro items short same
    rw [List.eq_nil_of_length_eq_zero (Nat.le_zero.mp short)]
    exact ⟨rfl, rfl⟩
  | succ n ih =>
    intro items short same
    cases items with
    | nil => exact ⟨rfl, rfl⟩
    | cons item rest =>
      rw [length_cons] at short
      cases item with
      | none =>
        obtain ⟨live, length⟩ := ih rest (by omega) same.tail
        have fewer : (rest.filterMap id).length ≤ n :=
          Nat.le_trans (List.length_filterMap_le id rest) (by omega)
        rw [combineEntries]
        refine ⟨?_, congrArg Nat.succ length⟩
        exact live.trans (RankedMerge.combine_enough CallRow.stack List.length (mergeRows iv) n fewer).symm
      | some cp =>
        obtain ⟨first, left, length, _, sameAfter⟩ := combineEntry_absorbs iv
          fieldRequirements free rest cp (same cp mem_cons_self) same.tail
        obtain ⟨live, lengthAfter⟩ := ih (combineEntry iv fieldRequirements cp rest).2 (by omega) sameAfter
        rw [left] at live
        rw [combineEntries]
        refine ⟨?_, congrArg Nat.succ (lengthAfter.trans length)⟩
        exact congrArg₂ List.cons first live

variable {rows : List (CallRow Frame Value)}

theorem combineDuplicateCallStacks_combines (free : requires fieldRequirements temps = false)
    (same : ∀ row ∈ rows, row.second.length = temps) : combineDuplicateCallStacks iv fieldRequirements rows =
      RankedMerge.combine CallRow.stack List.length (mergeRows iv) rows.length rows := by
  have entries : SameTemps temps (rows.map some) := by
    intro row member
    obtain ⟨source, among, equal⟩ := mem_map.mp member
    obtain rfl := Option.some.inj equal
    exact same source among
  have live : (rows.map some).filterMap id = rows := by
    rw [List.filterMap_map]
    exact List.filterMap_some
  obtain ⟨combined, length⟩ := combineEntries_combines iv fieldRequirements free rows.length
    (rows.map some) (by rw [List.length_map]) entries
  rw [combineDuplicateCallStacks, packVectorElements_eq rows.length (by rw [length]; simp), combined, live]

section

variable (bound : requires fieldRequirements temps = true)
include bound

theorem combineEntry_apart (items : List (Option (CallRow Frame Value))) : ∀ cp : CallRow Frame Value,
      cp.second.length = temps → SameTemps temps items →
        combineEntry iv fieldRequirements cp items = (cp, items) := by
  induction items with
  | nil => exact fun _ _ _ => rfl
  | cons item rest ih =>
    intro cp size same
    have tail := ih cp size same.tail
    cases item with
    | none => rw [combineEntry, tail]
    | some ncp =>
      have fields := matchFieldRequirements_eq fieldRequirements size (same ncp mem_cons_self)
      rw [bound] at fields
      simp [combineEntry, tail, fields]

theorem combineEntries_apart
    (n : Nat) : ∀ items : List (Option (CallRow Frame Value)), SameTemps temps items →
      combineEntries iv fieldRequirements n items = items := by
  induction n with
  | zero => exact fun _ _ => rfl
  | succ n ih =>
    intro items same
    cases items with
    | nil => rfl
    | cons item rest =>
      have tail := ih rest same.tail
      cases item with
      | none => rw [combineEntries, tail]
      | some cp =>
        rw [combineEntries, combineEntry_apart iv fieldRequirements bound rest cp
          (same cp mem_cons_self) same.tail]
        dsimp only
        rw [tail]

theorem combineDuplicateCallStacks_apart (same : ∀ row ∈ rows, row.second.length = temps) :
    combineDuplicateCallStacks iv fieldRequirements rows = rows := by
  have entries : SameTemps temps (rows.map some) := by
    intro row member
    obtain ⟨source, among, equal⟩ := mem_map.mp member
    obtain rfl := Option.some.inj equal
    exact same source among
  rw [combineDuplicateCallStacks, combineEntries_apart iv fieldRequirements bound _ _ entries,
    packVectorElements_eq rows.length (by simp), List.filterMap_map]
  exact List.filterMap_some

end

end

def prefixes (stack : List Frame) : List (List Frame) :=
  (List.range' 1 (stack.length - 1)).map stack.take ++ [stack]

def isExpanded (iv : List (ViewInstruction Value)) (temp : Nat) : Bool :=
  iv.any fun vp => vp.opCode = .stackExpand ∧ vp.tmpIndex1 = temp

section

variable [AddMonoid Value] (traceBackOrder : Bool) (iv : List (ViewInstruction Value))

theorem map_stack_expandRow (cp : CallRow Frame Value) :
    (expandRow traceBackOrder iv cp).map CallRow.stack = prefixes cp.stack := by
  simp [expandRow, prefixes, dupCallStack, CallRow.stack, Function.comp_def]

theorem map_stack_expandCallStack (items : List (CallRow Frame Value)) :
    (expandCallStack traceBackOrder iv items).map CallRow.stack =
      (items.map CallRow.stack).flatMap prefixes := by
  rw [expandCallStack, List.map_flatMap, List.flatMap_map]
  simp only [map_stack_expandRow]

theorem mem_prefixes {stack p : List Frame} (some_ : p ≠ []) : p ∈ prefixes stack ↔ p <+: stack := by
  rw [prefixes, List.mem_append, mem_map, List.mem_singleton]
  constructor
  · rintro (⟨i, _, rfl⟩ | rfl)
    · exact List.take_prefix i stack
    · exact List.prefix_refl p
  · intro isPrefix
    have short := isPrefix.length_le
    have positive := List.length_pos_iff.mpr some_
    by_cases whole : p.length = stack.length
    · exact .inr (isPrefix.eq_of_length whole)
    · refine .inl ⟨p.length, List.mem_range'_1.mpr ⟨by omega, by omega⟩, ?_⟩
      exact (List.prefix_iff_eq_take.mp isPrefix).symm

theorem length_expanded {temps : Nat} {items : List (CallRow Frame Value)}
    (same : ∀ row ∈ items, row.second.length = temps) :
    ∀ row ∈ expandCallStack traceBackOrder iv items, row.second.length = temps := by
  intro row member
  obtain ⟨cp, among, expanded⟩ := List.mem_flatMap.mp member
  obtain shorter | whole := List.mem_append.mp expanded
  · obtain ⟨i, _, rfl⟩ := mem_map.mp shorter
    exact (List.length_mapIdx).trans (same cp among)
  · obtain rfl := List.mem_singleton.mp whole
    exact same row among

def CallRow.temp (temp : Nat) (row : CallRow Frame Value) : Value :=
  row.second.getD temp 0

def contribution [DecidableEq Frame] (temp : Nat) (stack : List Frame)
    (source : CallRow Frame Value) : Value :=
  if (if isExpanded iv temp then stack <+: source.stack else stack = source.stack) then
    source.temp temp
  else 0

variable {temp : Nat}

theorem temp_dup {cp : CallRow Frame Value} (stack : CallStackEntry Frame) :
    CallRow.temp temp ⟨stack, dupCRVector iv cp.second⟩ = if isExpanded iv temp then cp.temp temp else 0 := by
  rw [CallRow.temp, dupCRVector, List.getD_eq_getElem?_getD, List.getElem?_mapIdx]
  cases found : cp.second[temp]? with
  | none => simp [CallRow.temp, found]
  | some value =>
    rw [Option.map_some, Option.getD_some, CallRow.temp, List.getD_eq_getElem?_getD, found]
    rfl

variable [DecidableEq Frame]

theorem filter_take {stack p : List Frame} (some_ : p ≠ []) (isPrefix : p <+: stack) (shorter : p ≠ stack) :
    (range' 1 (stack.length - 1)).filter (fun i => stack.take i = p) = [p.length] := by
  have short := isPrefix.length_le
  have positive := List.length_pos_iff.mpr some_
  have less : p.length ≠ stack.length := fun same => shorter (isPrefix.eq_of_length same)
  have only : ∀ i ∈ range' 1 (stack.length - 1),
      decide (stack.take i = p) = decide (i = p.length) := by
    intro i member
    have bounds := List.mem_range'_1.mp member
    refine decide_eq_decide.mpr ⟨fun same => ?_, fun same => ?_⟩
    · rw [← same, List.length_take]
      omega
    · rw [same]
      exact (List.prefix_iff_eq_take.mp isPrefix).symm
  have place : p.length ∈ range' 1 (stack.length - 1) :=
    List.mem_range'_1.mpr ⟨by omega, by omega⟩
  rw [List.filter_congr only, List.filter_eq, List.count_eq_one_of_mem List.nodup_range' place]
  rfl

theorem sum_expandRow {p : List Frame} (some_ : p ≠ []) (cp : CallRow Frame Value) :
    (((expandRow traceBackOrder iv cp).filter (·.stack = p)).map (CallRow.temp temp)).sum =
      contribution iv temp p cp := by
  rw [expandRow, List.filter_append, List.filter_map]
  unfold contribution
  by_cases whole : p = cp.stack
  · have none : (range' 1 (cp.stack.length - 1)).filter
        ((fun row : CallRow Frame Value => decide (row.stack = p)) ∘ fun i =>
          ⟨⟨dupCallStack i cp.stack, traceBackOrder⟩, dupCRVector iv cp.second⟩) = [] := by
      refine List.filter_eq_nil_iff.mpr fun i member => ?_
      have bounds := List.mem_range'_1.mp member
      simp only [Function.comp_apply, decide_eq_true_eq]
      intro same
      have lengths := congrArg List.length (same.trans whole)
      rw [CallRow.stack, dupCallStack, List.length_take] at lengths
      omega
    rw [none, whole, List.filter_cons_of_pos (by simp)]
    simp
  · have alone : [cp].filter (·.stack = p) = [] := by
      simp [Ne.symm whole]
    rw [alone, List.append_nil]
    by_cases isPrefix : p <+: cp.stack
    · have one : (range' 1 (cp.stack.length - 1)).filter
          ((fun row : CallRow Frame Value => decide (row.stack = p)) ∘ fun i =>
            ⟨⟨dupCallStack i cp.stack, traceBackOrder⟩, dupCRVector iv cp.second⟩) =
          [p.length] := filter_take some_ isPrefix whole
      rw [one]
      simp only [map_cons, List.map_nil, sum_cons, List.sum_nil, add_zero, temp_dup, isPrefix, whole]
      split <;> simp
    · have none : (range' 1 (cp.stack.length - 1)).filter
          ((fun row : CallRow Frame Value => decide (row.stack = p)) ∘ fun i =>
            ⟨⟨dupCallStack i cp.stack, traceBackOrder⟩, dupCRVector iv cp.second⟩) = [] := by
        refine List.filter_eq_nil_iff.mpr fun i member => ?_
        simp only [Function.comp_apply, decide_eq_true_eq]
        intro same
        exact isPrefix (same ▸ List.take_prefix i cp.stack)
      rw [none]
      simp [isPrefix, whole]

theorem sum_expandCallStack {p : List Frame} (some_ : p ≠ []) (items : List (CallRow Frame Value)) :
    (((expandCallStack traceBackOrder iv items).filter (·.stack = p)).map
      (CallRow.temp temp)).sum = (items.map (contribution iv temp p)).sum := by
  rw [expandCallStack]
  induction items with
  | nil => rfl
  | cons cp rest ih =>
    rw [List.flatMap_cons, List.filter_append, List.map_append, List.sum_append, ih,
      sum_expandRow traceBackOrder iv some_, map_cons, sum_cons]

end

/-- A prefix that comes again is met: where it stands first and another time, no shorter
prefix in between is new. -/
def PrefixesMet (callStacks : List (List Frame)) : Prop :=
  ∀ before p middle shorter after,
    callStacks.flatMap prefixes = before ++ p :: (middle ++ shorter :: after) →
      p ∉ before → shorter.length < p.length → p ∈ after → shorter ∈ before

theorem prefixesMet_iff (callStacks : List (List Frame)) :
    PrefixesMet callStacks ↔ RankedMerge.Met List.length [] (callStacks.flatMap prefixes) := by
  unfold PrefixesMet RankedMerge.Met
  simp

theorem mem_layout {input : List (CallRow Frame Value)} {p : List Frame} (some_ : p ≠ []) :
    p ∈ (input.map CallRow.stack).flatMap prefixes ↔ ∃ source ∈ input, p <+: source.stack := by
  rw [List.flatMap_map, List.mem_flatMap]
  simp only [mem_prefixes some_]

theorem length_filter_stack [DecidableEq Frame] (rows : List (CallRow Frame Value)) (p : List Frame) :
    (rows.filter (·.stack = p)).length = (rows.map CallRow.stack).count p := by
  rw [List.count_eq_countP, List.countP_map, List.countP_eq_length_filter]
  congr 2
  funext row
  exact (beq_eq_decide row.stack p).symm

theorem nodup_nonempty_iff [DecidableEq Frame] (keys : List (List Frame)) :
    (keys.filter (· ≠ [])).Nodup ↔ ∀ p ≠ [], p ∈ keys → keys.count p = 1 := by
  rw [List.nodup_iff_count_le_one]
  constructor
  · intro few p some_ member
    have once := few p
    rw [List.count_filter (by simp [some_])] at once
    have present := List.count_pos_iff.mpr member
    omega
  · intro once p
    by_cases some_ : p = []
    · rw [List.count_eq_zero_of_not_mem (by simp [some_])]
      omega
    · rw [List.count_filter (by simp [some_])]
      by_cases member : p ∈ keys
      · rw [once p some_ member]
      · rw [List.count_eq_zero_of_not_mem member]
        omega

section

variable [AddMonoid Value] [Min Value] [Max Value]

def isAdded (iv : List (Option (ViewInstruction Value))) (temp : Nat) : Bool :=
  match iv[temp]? with
  | some (some vp) => vp.opCode = .add
  | _ => false

variable {iv : List (Option (ViewInstruction Value))}

theorem temp_mergeRows {temp : Nat} (added : isAdded iv temp = true) {cp ncp : CallRow Frame Value}
    (left : temp < cp.second.length) (right : temp < ncp.second.length) :
    (mergeRows iv cp ncp).temp temp = cp.temp temp + ncp.temp temp := by
  unfold isAdded at added
  rw [mergeRows, CallRow.temp, CallRow.temp, CallRow.temp, accumulatePreDefinedTemps,
    List.getD_eq_getElem?_getD, List.getD_eq_getElem?_getD, List.getD_eq_getElem?_getD,
    List.getElem?_mapIdx, List.getElem?_eq_getElem left, List.getElem?_eq_getElem right]
  split at added
  · rename_i vp found
    simp [found, accumulateTemp, of_decide_eq_true added]
  · cases added

theorem temp_merged {temp size : Nat}
    (added : isAdded iv temp = true) (inside : temp < size) (others : List (CallRow Frame Value)) :
    ∀ first : CallRow Frame Value, first.second.length = size → (∀ row ∈ others, row.second.length = size) →
      (others.foldl (mergeRows iv) first).temp temp = ((first :: others).map (CallRow.temp temp)).sum := by
  induction others with
  | nil => simp
  | cons other rest ih =>
    intro first left right
    have sizeOther := right other mem_cons_self
    have next := ih (mergeRows iv first other) (by rw [length_mergeRows, left])
      fun row member => right row (List.mem_cons_of_mem _ member)
    rw [List.foldl_cons, next]
    simp only [map_cons, sum_cons]
    rw [temp_mergeRows added (by omega) (by omega), add_assoc]

theorem length_merged (accumulateInst : List (Option (ViewInstruction Value)))
    (others : List (CallRow Frame Value)) : ∀ first : CallRow Frame Value,
      (others.foldl (mergeRows accumulateInst) first).second.length = first.second.length := by
  induction others with
  | nil => exact fun _ => rfl
  | cons other rest ih =>
    intro first
    rw [List.foldl_cons, ih, length_mergeRows]

variable [DecidableEq Frame]

/-- One row for every prefix of the stacks, whose added temps are the sums over the rows
that the temps come from. -/
structure Aggregates (iv : List (ViewInstruction Value))
    (accumulateInst : List (Option (ViewInstruction Value))) (temps : Nat)
    (input output : List (CallRow Frame Value)) : Prop where
  isPrefix : ∀ row ∈ output, row.stack ≠ [] → ∃ source ∈ input, row.stack <+: source.stack
  one : ∀ p : List Frame, p ≠ [] → (∃ source ∈ input, p <+: source.stack) →
    (output.filter (·.stack = p)).length = 1
  sum : ∀ row ∈ output, row.stack ≠ [] → ∀ temp < temps, isAdded accumulateInst temp = true →
    row.second[temp]? = some (input.map (contribution iv temp row.stack)).sum

variable (traceBackOrder : Bool) (iv : List (ViewInstruction Value))
  (accumulateInst : List (Option (ViewInstruction Value)))
  (fieldRequirements : List (ViewInstruction Value))

variable {temps : Nat}

theorem merged_sum {input : List (CallRow Frame Value)}
    (same : ∀ row ∈ input, row.second.length = temps) {row first : CallRow Frame Value}
    {others : List (CallRow Frame Value)} (some_ : row.stack ≠ [])
    (own : (expandCallStack traceBackOrder iv input).filter (·.stack = row.stack) =
      first :: others) (merged : row = others.foldl (mergeRows accumulateInst) first) {temp : Nat}
    (inside : temp < temps) (added : isAdded accumulateInst temp = true) :
    row.second[temp]? = some (input.map (contribution iv temp row.stack)).sum := by
  have sizes : ∀ other ∈ first :: others, other.second.length = temps := by
    intro other member
    rw [← own] at member
    exact length_expanded traceBackOrder iv same other (List.mem_of_mem_filter member)
  have sizeFirst := sizes first mem_cons_self
  have size : row.second.length = temps := by
    rw [merged, length_merged, sizeFirst]
  have value := temp_merged added inside others first sizeFirst
    fun other member => sizes other (List.mem_cons_of_mem _ member)
  rw [← merged, ← own, sum_expandCallStack traceBackOrder iv some_] at value
  rw [← value, CallRow.temp, List.getD_eq_getElem?_getD, List.getElem?_eq_getElem (by omega)]
  rfl

variable {input output : List (CallRow Frame Value)}

theorem aggregates_of_merged (same : ∀ row ∈ input, row.second.length = temps)
    (keys : ∀ p, p ∈ output.map CallRow.stack ↔ p ∈ (input.map CallRow.stack).flatMap prefixes)
    (once : ∀ p ≠ [], p ∈ output.map CallRow.stack → (output.map CallRow.stack).count p = 1)
    (merged : ∀ row ∈ output, row.stack ≠ [] → ∃ first others,
      (expandCallStack traceBackOrder iv input).filter (·.stack = row.stack) = first :: others ∧
        row = others.foldl (mergeRows accumulateInst) first) :
    Aggregates iv accumulateInst temps input output := by
  refine ⟨?_, ?_, ?_⟩
  · intro row member some_
    exact (mem_layout some_).mp ((keys row.stack).mp (mem_map.mpr ⟨row, member, rfl⟩))
  · intro p some_ isPrefix
    rw [length_filter_stack]
    exact once p some_ ((keys p).mpr ((mem_layout some_).mpr isPrefix))
  · intro row member some_ temp inside added
    obtain ⟨first, others, own, value⟩ := merged row member some_
    exact merged_sum traceBackOrder iv accumulateInst same some_ own value inside added

omit [Min Value] [Max Value] in
theorem Aggregates.once (aggregates : Aggregates iv accumulateInst temps input output)
    (keys : ∀ p, p ∈ output.map CallRow.stack ↔ p ∈ (input.map CallRow.stack).flatMap prefixes) :
    ∀ p ≠ [], p ∈ output.map CallRow.stack → (output.map CallRow.stack).count p = 1 := by
  intro p some_ member
  rw [← length_filter_stack]
  exact aggregates.one p some_ ((mem_layout some_).mp ((keys p).mp member))

/-- Expanded and combined rows are those of the call tree exactly when every prefix that
comes again is met; where a field is required to be equal nothing is combined. -/
theorem expanded_combined_aggregates_iff {temps : Nat} {input : List (CallRow Frame Value)}
    (same : ∀ row ∈ input, row.second.length = temps) :
    Aggregates iv accumulateInst temps input
        (combineDuplicateCallStacks accumulateInst fieldRequirements
          (expandCallStack traceBackOrder iv input)) ↔
      if requires fieldRequirements temps then
        (((input.map CallRow.stack).flatMap prefixes).filter (· ≠ [])).Nodup
      else PrefixesMet (input.map CallRow.stack) := by
  have layout := map_stack_expandCallStack traceBackOrder iv input
  have sizes := length_expanded traceBackOrder iv same
  cases bound : requires fieldRequirements temps with
  | true =>
    rw [combineDuplicateCallStacks_apart accumulateInst fieldRequirements bound sizes, if_pos rfl,
      nodup_nonempty_iff, ← layout]
    have keys : ∀ p, p ∈ (expandCallStack traceBackOrder iv input).map CallRow.stack ↔
        p ∈ (input.map CallRow.stack).flatMap prefixes := fun p => by rw [layout]
    refine ⟨fun aggregates => aggregates.once iv accumulateInst keys, fun once => ?_⟩
    refine aggregates_of_merged traceBackOrder iv accumulateInst same keys once ?_
    intro row member some_
    have single := once row.stack some_ (List.mem_map.mpr ⟨row, member, rfl⟩)
    rw [← length_filter_stack] at single
    obtain ⟨only, own⟩ := List.length_eq_one_iff.mp single
    have among : row ∈ (expandCallStack traceBackOrder iv input).filter (·.stack = row.stack) :=
      List.mem_filter.mpr ⟨member, by simp⟩
    rw [own, List.mem_singleton] at among
    exact ⟨row, [], by rw [own, ← among], rfl⟩
  | false =>
    have kept : ∀ cp ncp : CallRow Frame Value,
        (mergeRows accumulateInst cp ncp).stack = cp.stack := fun _ _ => rfl
    rw [combineDuplicateCallStacks_combines accumulateInst fieldRequirements bound sizes,
      if_neg (by simp), prefixesMet_iff, ← layout]
    have enough := Nat.le_refl (expandCallStack traceBackOrder iv input).length
    have nodup := RankedMerge.combine_nodup CallRow.stack List.length (mergeRows accumulateInst) kept enough
    have keys : ∀ p, p ∈ (RankedMerge.combine CallRow.stack List.length
          (mergeRows accumulateInst) (expandCallStack traceBackOrder iv input).length
          (expandCallStack traceBackOrder iv input)).map CallRow.stack ↔
        p ∈ (input.map CallRow.stack).flatMap prefixes := by
      intro p
      rw [RankedMerge.mem_combine CallRow.stack List.length (mergeRows accumulateInst) kept, layout]
    rw [← nodup]
    constructor
    · intro aggregates
      have once := aggregates.once iv accumulateInst keys
      refine List.nodup_iff_count_le_one.mpr fun p => ?_
      by_cases some_ : p = []
      · have lowest : ([] : List Frame).length = 0 := rfl
        rw [some_]
        exact RankedMerge.combine_lowest CallRow.stack List.length (mergeRows accumulateInst)
          kept lowest _ enough
      · by_cases member : p ∈ (RankedMerge.combine CallRow.stack List.length
            (mergeRows accumulateInst) (expandCallStack traceBackOrder iv input).length
            (expandCallStack traceBackOrder iv input)).map CallRow.stack
        · exact Nat.le_of_eq (once p some_ member)
        · rw [List.count_eq_zero_of_not_mem member]
          omega
    · intro distinct
      refine aggregates_of_merged traceBackOrder iv accumulateInst same keys
        (fun p _ member => List.count_eq_one_of_mem distinct member) ?_
      intro row member _
      exact RankedMerge.combine_value CallRow.stack List.length (mergeRows accumulateInst) kept
        enough (nodup.mp distinct) member

end

/-! A report with the stacks 1 2, 3 and 1 2 4, the time of which is added. -/

def callStackRow (callStack : List Nat) (inclusive : Nat) : CallRow Nat Nat :=
  ⟨⟨callStack, true⟩, [inclusive]⟩

def expandTime : ViewInstruction Nat := ⟨.stackExpand, .error, -1, 0, -1, -1, none⟩

def addTime : ViewInstruction Nat := ⟨.add, .error, -1, 0, -1, -1, none⟩

theorem expanded_combined_aggregates_iff_oneRoot :
    Aggregates [expandTime] [some addTime] 1 [callStackRow [1, 2] 5, callStackRow [1, 2, 4] 7]
        (combineDuplicateCallStacks [some addTime] []
          (expandCallStack true [expandTime] [callStackRow [1, 2] 5, callStackRow [1, 2, 4] 7])) ↔
      if requires ([] : List (ViewInstruction Nat)) 1 then
        ((([callStackRow [1, 2] 5, callStackRow [1, 2, 4] 7].map CallRow.stack).flatMap
          prefixes).filter (· ≠ [])).Nodup
      else PrefixesMet ([callStackRow [1, 2] 5, callStackRow [1, 2, 4] 7].map CallRow.stack) :=
  expanded_combined_aggregates_iff true [expandTime] [some addTime] [] (by decide)

theorem interleavedRoot_apart :
    ¬Aggregates [expandTime] [some addTime] 1
      [callStackRow [1, 2] 5, callStackRow [3] 6, callStackRow [1, 2, 4] 7]
      (combineDuplicateCallStacks [some addTime] []
        (expandCallStack true [expandTime]
          [callStackRow [1, 2] 5, callStackRow [3] 6, callStackRow [1, 2, 4] 7])) := by
  intro aggregates
  have one := aggregates.one [1, 2] (by decide)
    ⟨callStackRow [1, 2] 5, List.mem_cons_self, List.prefix_refl [1, 2]⟩
  revert one
  decide +kernel

end OpenSpeedShop.CallStacks
