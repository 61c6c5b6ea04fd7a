import OpenSpeedShop.Collectors.InclusiveTimeCore
import OpenSpeedShop.Collectors.Usertime
import Mathlib.Algebra.BigOperators.Field

/-!
Inclusive times: a sample is added to a subextent once for every frame of its
stack trace that lies there, so once only where no function recurs in the trace.
-/

namespace OpenSpeedShop

open ExtentGroup
open List (mem_cons_self sum_cons map_cons mem_cons_of_mem)
open Usertime (keptAddress theHighest)

namespace InclusiveTime

variable {Value : Type} {nthElement : NthElement} {fuel : Nat} {etimeinterval : TimeInterval}
  {extents : List Extent}

def inside (etimeinterval : TimeInterval) (subextent : Extent) (frame : Address) : Bool :=
  subextent.dmInterval.doesIntersect etimeinterval && subextent.dmRange.doesContain frame

structure Adds (extents : List Extent) (change : Extent → Value → Value)
    (before after : List Value) : Prop where
  length : after.length = before.length
  value : ∀ (k : Nat) (subextent : Extent) (value : Value), extents[k]? = some subextent → before[k]? = some value →
    after[k]? = some (change subextent value)

theorem Adds.refl (values : List Value) : Adds extents (fun _ value => value) values values :=
  ⟨rfl, fun _ _ _ _ here => here⟩

variable {first second : Extent → Value → Value}

theorem Adds.trans {before middle after : List Value}
    (one : Adds extents first before middle) (two : Adds extents second middle after) :
    Adds extents (fun subextent value => second subextent (first subextent value)) before after :=
  ⟨two.length.trans one.length, fun k subextent value isSubextent here =>
    two.value k subextent _ isSubextent (one.value k subextent value isSubextent here)⟩

theorem Adds.congr {before after : List Value} (adds : Adds extents first before after)
    (same : ∀ subextent ∈ extents, ∀ value, first subextent value = second subextent value) :
    Adds extents second before after :=
  ⟨adds.length, fun k subextent value isSubextent here => by
    rw [← same subextent (List.mem_of_getElem? isSubextent)]
    exact adds.value k subextent value isSubextent here⟩

variable {add : Extent → Value → Value}

theorem foldlM_addTo {keys : List Nat} (distinct : keys.Nodup) (known : ∀ k ∈ keys, k < extents.length) :
    ∀ {values : List Value}, extents.length ≤ values.length →
      ∃ after, keys.foldlM (addTo add extents) values = some after ∧
        after.length = values.length ∧ ∀ (k : Nat) (subextent : Extent) (value : Value),
          extents[k]? = some subextent → values[k]? = some value →
            after[k]? = some (if k ∈ keys then add subextent value else value) := by
  induction keys with
  | nil => exact fun {values} _ => ⟨values, rfl, rfl, fun _ _ _ _ here => by simpa using here⟩
  | cons key rest ih =>
    intro values room
    obtain ⟨fresh, distinctRest⟩ := List.nodup_cons.mp distinct
    have bound := known key mem_cons_self
    have inRoom : key < values.length := Nat.lt_of_lt_of_le bound room
    let next := values.set key (add extents[key] values[key])
    have step : addTo add extents values key = some next := by
      rw [addTo, List.getElem?_eq_getElem bound, List.getElem?_eq_getElem inRoom]
      rfl
    obtain ⟨after, ran, length, entries⟩ :=
      @ih distinctRest (fun k member => known k (mem_cons_of_mem key member)) next
        (by rwa [List.length_set])
    refine ⟨after, ?_, length.trans List.length_set, fun k subextent value isSubextent here => ?_⟩
    · rw [List.foldlM_cons, step]
      exact ran
    · by_cases same : k = key
      · subst same
        have changed : next[k]? = some (add subextent value) := by
          rw [List.getElem?_set_self inRoom]
          rw [List.getElem?_eq_getElem bound] at isSubextent
          rw [List.getElem?_eq_getElem inRoom] at here
          rw [Option.some.inj isSubextent, Option.some.inj here]
        rw [entries k subextent _ isSubextent changed, if_neg fresh, if_pos mem_cons_self]
      · have kept : next[k]? = some value := by
          rwa [List.getElem?_set_ne (Ne.symm same)]
        rw [entries k subextent value isSubextent kept]
        simp [same]

variable {frame : Address}

theorem doesIntersect_single (kept : keptAddress frame = true) (range : AddressRange) :
    range.doesIntersect ⟨frame, frame + 1⟩ = range.doesContain frame := by
  have below : frame < theHighest := by
    simp only [keptAddress, Bool.not_eq_true', Bool.or_eq_false_iff, decide_eq_false_iff_not] at kept
    exact not_le.mp kept.1
  have next : (frame + 1).toNat = frame.toNat + 1 := by
    have small := UInt64.lt_iff_toNat_lt.mp below
    have highest : theHighest.toNat = 18446744073709551615 := by
      decide
    rw [UInt64.toNat_add, Nat.mod_eq_of_lt]
    · rfl
    · simp only [UInt64.reduceToNat]
      omega
  rw [Bool.eq_iff_iff, Interval.doesIntersect_iff, Interval.doesContain_iff, max_lt_iff, lt_min_iff,
    lt_min_iff]
  simp only [UInt64.lt_iff_toNat_lt, UInt64.le_iff_toNat_le, next]
  omega

theorem getBounds_covers {group : ExtentGroup} (consistent : Consistent group) :
    ∃ bounds next, getBounds group = some (bounds, next) ∧ Consistent next ∧
      next.extents = group.extents ∧ ∀ subextent ∈ group.extents, bounds.Covers subextent := by
  unfold getBounds
  by_cases empty : group.extents = []
  · refine ⟨default, group, by simp [empty], consistent, rfl, ?_⟩
    simp [empty]
  · have nonempty := List.length_pos_of_ne_nil empty
    obtain ⟨next, initialized, tree, same⟩ := initializeTree_correct nonempty fun sameSize =>
      consistent.current (by omega) sameSize
    obtain ⟨root, rootLive, rootFirst, rootLast⟩ := tree.root
    refine ⟨root.dmBounds, next, ?_, tree.consistent, same, fun subextent member => ?_⟩
    · simp only [List.isEmpty_iff, empty, if_false, initialized, Option.bind_eq_bind,
        Option.bind_some, rootLive.2]
    · obtain ⟨item, here⟩ := List.mem_iff_getElem?.mp member
      have bound := (List.getElem?_eq_some_iff.mp here).1
      rw [← same] at here bound
      obtain ⟨position, named⟩ := tree.mapOnto item bound
      have inMap := (List.getElem?_eq_some_iff.mp named).1
      have mapSize := tree.mapSize
      refine (tree.nodes 0 root rootLive).covers item ⟨position, ?_, ?_, named⟩ subextent here
      · omega
      · omega

def framesInside (etimeinterval : TimeInterval) (subextent : Extent) (trace : List Address) : Nat :=
  trace.countP (inside etimeinterval subextent)

structure Ready (fuel : Nat) (extents : List Extent) (pass : Pass Value) : Prop where
  consistent : Consistent pass.subextents
  same : pass.subextents.extents = extents
  enough : 2 * extents.length ≤ fuel
  room : extents.length ≤ pass.values.length

def Bounds (etimeinterval : TimeInterval) (extents : List Extent) (bounds : Option AddressRange) :
    Prop :=
  ∀ range ∈ bounds, ∀ subextent ∈ extents, ∀ frame, Usertime.keptAddress frame = true →
    inside etimeinterval subextent frame = true → range.doesContain frame = true

theorem addFrame_adds {bounds : Option AddressRange} {pass : Pass Value} (kept : keptAddress frame = true)
    (ready : Ready fuel extents pass) (covers : Bounds etimeinterval extents bounds) :
    ∃ next, addFrame nthElement fuel etimeinterval bounds add pass frame = some next ∧
      Ready fuel extents next ∧ Adds extents (fun subextent value =>
        if inside etimeinterval subextent frame then add subextent value else value)
        pass.values next.values := by
  obtain ⟨consistent, rfl, enough, room⟩ := ready
  unfold addFrame
  by_cases outside : bounds.any (fun range => !range.doesContain frame) = true
  · refine ⟨pass, if_pos outside, ⟨consistent, rfl, enough, room⟩, (Adds.refl pass.values).congr ?_⟩
    intro subextent member value
    obtain ⟨range, isBounds, misses⟩ : ∃ range, bounds = some range ∧ range.doesContain frame = false := by
      cases bounds with
      | none => cases outside
      | some range => exact ⟨range, rfl, by simpa using outside⟩
    have apart : inside etimeinterval subextent frame = false := by
      rw [Bool.eq_false_iff]
      intro lies
      rw [covers range isBounds subextent member frame kept lies] at misses
      cases misses
    rw [apart]
    rfl
  · obtain ⟨next, answered, nextConsistent, same⟩ := getIntersectionWith_correct nthElement fuel
      consistent enough ⟨etimeinterval, ⟨frame, frame + 1⟩⟩
    have found : ∀ (k : Nat) (subextent : Extent), pass.subextents.extents[k]? = some subextent →
        (k ∈ linearScan pass.subextents.extents ⟨etimeinterval, ⟨frame, frame + 1⟩⟩ ↔
          inside etimeinterval subextent frame = true) := by
      intro k subextent here
      simp only [mem_linearScan, here, Option.some.injEq, exists_eq_left', Extent.doesIntersect_eq,
        doesIntersect_single kept, inside]
    obtain ⟨values, ran, length, entries⟩ := @foldlM_addTo _ pass.subextents.extents add
      ((linearScan pass.subextents.extents ⟨etimeinterval, ⟨frame, frame + 1⟩⟩).sort (· ≤ ·))
      (Finset.sort_nodup _ _) (fun k member => by
        obtain ⟨subextent, here, -⟩ := (mem_linearScan _ _ _).mp ((Finset.mem_sort _).mp member)
        exact (List.getElem?_eq_some_iff.mp here).1) pass.values room
    refine ⟨⟨next, values⟩, ?_, ⟨nextConsistent, same, enough, length ▸ room⟩, length, ?_⟩
    · rw [if_neg outside, answered]
      simp only [Option.bind_eq_bind, Option.bind_some, same, ran]
      rfl
    · intro k subextent value isSubextent here
      rw [entries k subextent value isSubextent here]
      simp only [Finset.mem_sort, found k subextent isSubextent]

theorem foldlM_adds {Item : Type} {step : Pass Value → Item → Option (Pass Value)}
    {change : Item → Extent → Value → Value} {items : List Item}
    (each : ∀ item ∈ items, ∀ pass, Ready fuel extents pass → ∃ next, step pass item = some next ∧
      Ready fuel extents next ∧ Adds extents (change item) pass.values next.values) :
    ∀ {pass : Pass Value}, Ready fuel extents pass → ∃ next, items.foldlM step pass = some next ∧
      Ready fuel extents next ∧ Adds extents (fun subextent value =>
        items.foldl (fun value item => change item subextent value) value) pass.values next.values := by
  induction items with
  | nil => exact fun {pass} ready => ⟨pass, rfl, ready, Adds.refl pass.values⟩
  | cons item rest ih =>
    intro pass ready
    obtain ⟨middle, first, middleReady, one⟩ := each item mem_cons_self pass ready
    obtain ⟨next, others, nextReady, two⟩ :=
      ih (fun other member => each other (mem_cons_of_mem item member)) middleReady
    refine ⟨next, ?_, nextReady, one.trans two⟩
    rw [List.foldlM_cons, first]
    exact others

theorem foldl_frames (sample : Sample) (subextent : Extent) (trace : List Address) (value : ℚ) :
    trace.foldl (fun value frame => if inside etimeinterval subextent frame then
      addTime etimeinterval sample subextent value else value) value =
    value + framesInside etimeinterval subextent trace * (sample.time * fraction etimeinterval subextent) := by
  induction trace generalizing value with
  | nil => simp [framesInside]
  | cons frame rest ih =>
    rw [List.foldl_cons, ih, framesInside, framesInside, List.countP_cons]
    cases inside etimeinterval subextent frame with
    | false => simp
    | true =>
      rw [if_pos rfl, if_pos rfl, addTime]
      push_cast
      ring

theorem foldl_samples (frames : Sample → List Address) (subextent : Extent) (samples : List Sample) (value : ℚ) :
    samples.foldl (fun value sample => value + framesInside etimeinterval subextent (frames sample) *
      (sample.time * fraction etimeinterval subextent)) value =
    value + (samples.map fun sample => framesInside etimeinterval subextent (frames sample) *
      (sample.time * fraction etimeinterval subextent)).sum := by
  induction samples generalizing value with
  | nil => simp
  | cons sample rest ih =>
    rw [List.foldl_cons, ih, map_cons, sum_cons, add_assoc]

theorem mem_filter_kept {frames : List UInt64} :
    ∀ frame ∈ frames.filter keptAddress, keptAddress frame = true :=
  fun _ member => (List.mem_filter.mp member).2

variable {samples : List Sample}

theorem of_mem_samples {profile : Profile}
    (read : profile.samples = some samples) {sample : Sample} (member : sample ∈ samples) :
    (∀ frame ∈ sample.trace, keptAddress frame = true) ∧ 0 ≤ sample.time := by
  cases profile with
  | usertime data =>
    simp only [Profile.samples, Option.map_eq_some_iff] at read
    obtain ⟨entries, decoded, rfl⟩ := read
    obtain ⟨entry, own, rfl⟩ := List.mem_map.mp member
    refine ⟨Usertime.Data.kept_of_decode decoded entry own, ?_⟩
    unfold usertimeSample
    positivity
  | mpip data =>
    simp only [Profile.samples] at read
    split at read
    · obtain ⟨entry, -, isSample⟩ := Fallible.mem_of_mapM read sample member
      simp only [ProfileData.sample, Option.bind_eq_bind, Option.bind_eq_some_iff, Option.pure_def,
        Option.some.injEq] at isSample
      obtain ⟨count, -, time, -, rfl⟩ := isSample
      refine ⟨mem_filter_kept, ?_⟩
      dsimp only
      positivity
    · cases read

def used (isExclusive : Bool) (sample : Sample) : List Address :=
  if isExclusive then sample.trace.take 1 else sample.trace

theorem getMetricValues_adds {isExclusive : Bool} {profile : Profile}
    (read : profile.samples = some samples) {pass : Pass ℚ} (ready : Ready fuel extents pass) :
    ∃ next, getMetricValues nthElement fuel etimeinterval isExclusive addTime profile pass = some next ∧
      Ready fuel extents next ∧ Adds extents (fun subextent value => value +
        (samples.map fun sample => framesInside etimeinterval subextent (used isExclusive sample) *
          (sample.time * fraction etimeinterval subextent)).sum) pass.values next.values := by
  obtain ⟨bounds, initial, answered, consistent, same, covers⟩ := getBounds_covers ready.consistent
  rw [ready.same] at same covers
  have checked : Bounds etimeinterval extents (if profile.checksBounds then some bounds.dmRange else none) := by
    intro range isBounds subextent member frame kept lies
    split at isBounds
    · obtain rfl := Option.mem_some_iff.mp isBounds
      rw [inside, ← doesIntersect_single kept, Bool.and_eq_true] at lies
      have meets := covers subextent member ⟨etimeinterval, ⟨frame, frame + 1⟩⟩
        (by rw [Extent.doesIntersect_eq, Bool.and_eq_true]; exact lies)
      rw [Extent.doesIntersect_eq, Bool.and_eq_true] at meets
      rw [← doesIntersect_single kept]
      exact meets.2
    · cases isBounds
  have start : Ready fuel extents (⟨initial, pass.values⟩ : Pass ℚ) :=
    ⟨consistent, same, ready.enough, ready.room⟩
  have each : ∀ sample ∈ samples, ∀ pass : Pass ℚ, Ready fuel extents pass →
      ∃ next, addSample nthElement fuel etimeinterval isExclusive
        (if profile.checksBounds then some bounds.dmRange else none) (addTime etimeinterval) pass
        sample = some next ∧ Ready fuel extents next ∧
        Adds extents (fun subextent value => value + framesInside etimeinterval subextent
          (used isExclusive sample) * (sample.time * fraction etimeinterval subextent))
          pass.values next.values := by
    intro sample member pass ready
    have sub : used isExclusive sample ⊆ sample.trace := by
      unfold used
      split
      exacts [List.take_subset 1 _, List.Subset.refl _]
    obtain ⟨next, ran, nextReady, adds⟩ := @foldlM_adds _ _ _ _
      (addFrame nthElement fuel etimeinterval _ (addTime etimeinterval sample))
      (fun frame subextent value => if inside etimeinterval subextent frame then
        addTime etimeinterval sample subextent value else value) (used isExclusive sample)
      (fun frame inTrace pass ready =>
        addFrame_adds ((of_mem_samples read member).1 frame (sub inTrace)) ready checked) pass ready
    exact ⟨next, ran, nextReady, adds.congr fun subextent _ value =>
      foldl_frames sample subextent _ value⟩
  obtain ⟨next, ran, nextReady, adds⟩ := foldlM_adds each start
  refine ⟨next, ?_, nextReady, adds.congr fun subextent _ value =>
    foldl_samples (used isExclusive) subextent samples value⟩
  have room : ¬ pass.values.length < initial.extents.length := by
    rw [same]
    exact Nat.not_lt.mpr ready.room
  simp only [getMetricValues, answered, read, room, if_false, Option.bind_eq_bind, Option.bind_some]
  exact ran

theorem inclusiveTime_adds {profile : Profile}
    (read : profile.samples = some samples) {pass : Pass ℚ} (ready : Ready fuel extents pass) :
    ∃ next, inclusiveTime nthElement fuel etimeinterval profile pass = some next ∧
      Ready fuel extents next ∧ Adds extents (fun subextent value => value +
        (samples.map fun sample => framesInside etimeinterval subextent sample.trace *
          (sample.time * fraction etimeinterval subextent)).sum) pass.values next.values :=
  getMetricValues_adds read ready

def once (etimeinterval : TimeInterval) (sample : Sample) (subextent : Extent) : ℚ :=
  if framesInside etimeinterval subextent sample.trace = 0 then 0
  else sample.time * fraction etimeinterval subextent

def CountsOnce (etimeinterval : TimeInterval) (extents : List Extent) (samples : List Sample)
    (before after : List ℚ) : Prop :=
  ∀ (k : Nat) (subextent : Extent) (value : ℚ), extents[k]? = some subextent →
    before[k]? = some value → after[k]? =
      some (value + (samples.map fun sample => once etimeinterval sample subextent).sum)

theorem inter_width {interval other : TimeInterval} (meets : other.doesIntersect interval = true) :
    (interval.inter other).getWidth.toNat = (min interval.dmEnd other.dmEnd).toNat -
        (max interval.dmBegin other.dmBegin).toNat ∧ 0 < (interval.inter other).getWidth.toNat := by
  rw [Interval.doesIntersect_comm, Interval.doesIntersect_iff] at meets
  have below := UInt64.lt_iff_toNat_lt.mp meets
  have width : (interval.inter other).getWidth.toNat = (min interval.dmEnd other.dmEnd).toNat -
      (max interval.dmBegin other.dmBegin).toNat := by
    rw [Interval.getWidth, Interval.inter_dmEnd, Interval.inter_dmBegin, min_eq_right meets.le,
      UInt64.toNat_sub_of_le _ _ meets.le]
  omega

theorem blob_width {interval other : TimeInterval} (meets : other.doesIntersect interval = true) :
    interval.getWidth.toNat = interval.dmEnd.toNat - interval.dmBegin.toNat ∧ 0 < interval.getWidth.toNat := by
  rw [Interval.doesIntersect_comm, Interval.doesIntersect_iff] at meets
  have ordered := lt_of_le_of_lt (le_max_left _ _) (lt_of_lt_of_le meets (min_le_left _ _))
  have below := UInt64.lt_iff_toNat_lt.mp ordered
  have width : interval.getWidth.toNat = interval.dmEnd.toNat - interval.dmBegin.toNat :=
    UInt64.toNat_sub_of_le _ _ ordered.le
  omega

theorem fraction_nonneg (subextent : Extent) : 0 ≤ fraction etimeinterval subextent := by
  unfold fraction
  positivity

theorem fraction_pos {subextent : Extent} {trace : List Address}
    (some : framesInside etimeinterval subextent trace ≠ 0) : 0 < fraction etimeinterval subextent := by
  obtain ⟨frame, -, lies⟩ := List.countP_pos_iff.mp (Nat.pos_of_ne_zero some)
  rw [inside, Bool.and_eq_true] at lies
  have part := (inter_width lies.1).2
  have whole := (blob_width lies.1).2
  unfold fraction
  positivity

theorem once_le {sample : Sample} (nonneg : 0 ≤ sample.time) (subextent : Extent) :
    once etimeinterval sample subextent ≤ framesInside etimeinterval subextent sample.trace *
      (sample.time * fraction etimeinterval subextent) := by
  have part := mul_nonneg nonneg (@fraction_nonneg etimeinterval subextent)
  unfold once
  split
  · positivity
  · rename_i some
    have least : (1 : ℚ) ≤ framesInside etimeinterval subextent sample.trace := by
      exact_mod_cast Nat.one_le_iff_ne_zero.mpr some
    exact le_mul_of_one_le_left part least

theorem once_eq_iff {sample : Sample} (subextent : Extent) :
    once etimeinterval sample subextent = framesInside etimeinterval subextent sample.trace *
      (sample.time * fraction etimeinterval subextent) ↔
    (sample.time ≠ 0 → framesInside etimeinterval subextent sample.trace ≤ 1) := by
  unfold once
  by_cases none : framesInside etimeinterval subextent sample.trace = 0
  · simp [none]
  · rw [if_neg none]
    by_cases zero : sample.time = 0
    · simp [zero]
    · have part := mul_ne_zero zero (fraction_pos none).ne'
      rw [eq_comm, mul_eq_right₀ part]
      constructor
      · intro one _
        exact (@Nat.cast_injective ℚ _ _ _ _ (one.trans Nat.cast_one.symm)).le
      · intro atMost
        have one : framesInside etimeinterval subextent sample.trace = 1 := by
          have most := atMost zero
          omega
        rw [one, Nat.cast_one]

theorem sums_eq_iff {first second : Sample → ℚ} (below : ∀ sample ∈ samples, first sample ≤ second sample) :
    (samples.map first).sum = (samples.map second).sum ↔ ∀ sample ∈ samples, first sample = second sample := by
  induction samples with
  | nil => simp
  | cons sample rest ih =>
    have own := below sample mem_cons_self
    have others := fun other member => below other (mem_cons_of_mem sample member)
    have sums : (rest.map first).sum ≤ (rest.map second).sum := List.sum_le_sum others
    rw [map_cons, map_cons, sum_cons, sum_cons, List.forall_mem_cons, ← ih others]
    constructor
    · intro same
      constructor
      · linarith
      · linarith
    · rintro ⟨one, two⟩
      rw [one, two]

theorem countsOnce_iff {before after : List ℚ}
    (nonneg : ∀ sample ∈ samples, 0 ≤ sample.time) (room : extents.length ≤ before.length)
    (adds : Adds extents (fun subextent value => value +
      (samples.map fun sample => framesInside etimeinterval subextent sample.trace *
        (sample.time * fraction etimeinterval subextent)).sum) before after) :
    CountsOnce etimeinterval extents samples before after ↔
      ∀ sample ∈ samples, sample.time ≠ 0 → ∀ subextent ∈ extents,
        framesInside etimeinterval subextent sample.trace ≤ 1 := by
  have sums : ∀ subextent : Extent,
      (samples.map fun sample => once etimeinterval sample subextent).sum =
        (samples.map fun sample => framesInside etimeinterval subextent sample.trace *
          (sample.time * fraction etimeinterval subextent)).sum ↔
      ∀ sample ∈ samples, sample.time ≠ 0 → framesInside etimeinterval subextent sample.trace ≤ 1 := by
    intro subextent
    rw [sums_eq_iff fun sample member => once_le (nonneg sample member) subextent]
    simp only [once_eq_iff]
  constructor
  · intro counts sample member nonzero subextent isSubextent
    obtain ⟨k, here⟩ := List.mem_iff_getElem?.mp isSubextent
    have bound := (List.getElem?_eq_some_iff.mp here).1
    have present := List.getElem?_eq_getElem (Nat.lt_of_lt_of_le bound room)
    have one := counts k subextent _ here present
    rw [adds.value k subextent _ here present, Option.some.injEq, add_right_inj, eq_comm, sums] at one
    exact one sample member nonzero
  · intro single k subextent value here present
    have member := List.mem_of_getElem? here
    rw [adds.value k subextent value here present,
      (sums subextent).mpr fun sample own nonzero => single sample own nonzero subextent member]

def Apart (extents : List Extent) (function : Finset (Fin extents.length)) : Prop :=
  ∀ one ∈ function, ∀ other ∈ function, one ≠ other → extents[one].doesIntersect extents[other] = false

def framesOf (etimeinterval : TimeInterval) (extents : List Extent)
    (function : Finset (Fin extents.length)) (trace : List Address) : List Address :=
  trace.filter fun frame => ∃ k ∈ function, inside etimeinterval extents[k] frame = true

variable {function : Finset (Fin extents.length)}

theorem framesInside_eq {k : Fin extents.length}
    (own : k ∈ function) (trace : List Address) : framesInside etimeinterval extents[k] trace =
      (framesOf etimeinterval extents function trace).countP (inside etimeinterval extents[k]) := by
  rw [framesInside, framesOf, List.countP_filter]
  refine List.countP_congr fun frame _ => ?_
  simp only [Bool.and_eq_true, decide_eq_true_eq]
  exact ⟨fun lies => ⟨lies, k, own, lies⟩, fun both => both.1⟩

theorem moment_within {first second third fourth : UInt64} {moment : Nat}
    (within : (max first second).toNat ≤ moment ∧ moment < (min third fourth).toNat) :
    second.toNat ≤ moment ∧ moment < fourth.toNat := by
  have later := UInt64.le_iff_toNat_le.mp (le_max_right first second)
  have earlier := UInt64.le_iff_toNat_le.mp (min_le_right third fourth)
  omega

theorem widths_le (apart : Apart extents function)
    (contain : ∀ k ∈ function, inside etimeinterval extents[k] frame = true) :
    ∑ k ∈ function, (etimeinterval.inter extents[k].dmInterval).getWidth.toNat ≤
      etimeinterval.getWidth.toNat := by
  let part (k : Fin extents.length) : Finset Nat :=
    Finset.Ico (max etimeinterval.dmBegin extents[k].dmInterval.dmBegin).toNat
      (min etimeinterval.dmEnd extents[k].dmInterval.dmEnd).toNat
  have meets : ∀ k ∈ function, extents[k].dmInterval.doesIntersect etimeinterval = true ∧
      extents[k].dmRange.doesContain frame = true := by
    intro k member
    have lies := contain k member
    rwa [inside, Bool.and_eq_true] at lies
  by_cases empty : function = ∅
  · simp [empty]
  · obtain ⟨some, member⟩ := Finset.nonempty_iff_ne_empty.mpr empty
    have blob := (blob_width (meets some member).1).1
    have widths : ∀ k ∈ function,
        (etimeinterval.inter extents[k].dmInterval).getWidth.toNat = (part k).card := by
      intro k own
      rw [(inter_width (meets k own).1).1, Nat.card_Ico]
    have disjoint : (function : Set (Fin extents.length)).PairwiseDisjoint part := by
      intro one oneMember other otherMember different
      rw [Function.onFun, Finset.disjoint_left]
      intro moment inOne inOther
      have first := moment_within (Finset.mem_Ico.mp inOne)
      have second := moment_within (Finset.mem_Ico.mp inOther)
      have times : extents[one].dmInterval.doesIntersect extents[other].dmInterval = true := by
        rw [Interval.doesIntersect_iff, max_lt_iff, lt_min_iff, lt_min_iff]
        simp only [UInt64.lt_iff_toNat_lt]
        omega
      have ranges : extents[one].dmRange.doesIntersect extents[other].dmRange = true := by
        have inFirst := (Interval.doesContain_iff _ _).mp (meets one oneMember).2
        have inSecond := (Interval.doesContain_iff _ _).mp (meets other otherMember).2
        rw [Interval.doesIntersect_iff]
        exact (max_le inFirst.1 inSecond.1).trans_lt (lt_min inFirst.2 inSecond.2)
      have both := apart one oneMember other otherMember different
      rw [Extent.doesIntersect_eq, times, ranges] at both
      cases both
    have within : function.biUnion part ⊆
        Finset.Ico etimeinterval.dmBegin.toNat etimeinterval.dmEnd.toNat := by
      refine Finset.biUnion_subset.mpr fun k _ => Finset.Ico_subset_Ico ?_ ?_
      · exact UInt64.le_iff_toNat_le.mp (le_max_left _ _)
      · exact UInt64.le_iff_toNat_le.mp (min_le_left _ _)
    rw [Finset.sum_congr rfl widths, ← Finset.card_biUnion disjoint, blob, ← Nat.card_Ico]
    exact Finset.card_le_card within

theorem sample_le (apart : Apart extents function) {sample : Sample} (nonneg : 0 ≤ sample.time)
    (single : (framesOf etimeinterval extents function sample.trace).length ≤ 1) :
    ∑ k ∈ function, framesInside etimeinterval extents[k] sample.trace *
      (sample.time * fraction etimeinterval extents[k]) ≤ sample.time := by
  have inSingle : ∀ k ∈ function, framesInside etimeinterval extents[k] sample.trace =
      (framesOf etimeinterval extents function sample.trace).countP
        (inside etimeinterval extents[k]) := fun k own => framesInside_eq own sample.trace
  match frames : framesOf etimeinterval extents function sample.trace with
  | [] =>
    rw [Finset.sum_eq_zero fun k own => by rw [inSingle k own, frames]; simp]
    exact nonneg
  | [frame] =>
    let here := function.filter fun k => inside etimeinterval extents[k] frame = true
    have counted : ∀ k ∈ function, (framesInside etimeinterval extents[k] sample.trace : ℚ) =
        if inside etimeinterval extents[k] frame = true then 1 else 0 := by
      intro k own
      rw [inSingle k own, frames, List.countP_singleton]
      split <;> simp
    have apartHere : Apart extents here := fun one oneMember other otherMember =>
      apart one (Finset.mem_filter.mp oneMember).1 other (Finset.mem_filter.mp otherMember).1
    have widths := widths_le apartHere fun k member => (Finset.mem_filter.mp member).2
    have fractions : ∑ k ∈ here, fraction etimeinterval extents[k] ≤ 1 := by
      unfold fraction
      rw [← Finset.sum_div, ← Nat.cast_sum]
      exact div_le_one_of_le₀ (Nat.cast_le.mpr widths) (Nat.cast_nonneg _)
    calc ∑ k ∈ function, framesInside etimeinterval extents[k] sample.trace *
          (sample.time * fraction etimeinterval extents[k])
        = ∑ k ∈ here, sample.time * fraction etimeinterval extents[k] := by
          rw [Finset.sum_filter]
          refine Finset.sum_congr rfl fun k own => ?_
          rw [counted k own]
          split <;> simp
      _ = sample.time * ∑ k ∈ here, fraction etimeinterval extents[k] := by
          rw [Finset.mul_sum]
      _ ≤ sample.time := mul_le_of_le_one_right nonneg fractions
  | _ :: _ :: _ =>
    rw [frames] at single
    simp at single

theorem function_le (apart : Apart extents function)
    (nonneg : ∀ sample ∈ samples, 0 ≤ sample.time) (single : ∀ sample ∈ samples,
      (framesOf etimeinterval extents function sample.trace).length ≤ 1) :
    ∑ k ∈ function, (samples.map fun sample => framesInside etimeinterval extents[k] sample.trace *
      (sample.time * fraction etimeinterval extents[k])).sum ≤ (samples.map Sample.time).sum := by
  induction samples with
  | nil => simp
  | cons sample rest ih =>
    have own := sample_le apart (nonneg sample mem_cons_self) (single sample mem_cons_self)
    have others := ih (fun other member => nonneg other (mem_cons_of_mem sample member))
      fun other member => single other (mem_cons_of_mem sample member)
    simp only [map_cons, sum_cons, Finset.sum_add_distrib]
    exact add_le_add own others

/-- When the time of each sample is counted once for every subextent, and when the time of a
function is within the sampled time. -/
theorem inclusiveTime_counts_iff {profile : Profile} {samples : List Sample}
    (read : profile.samples = some samples) {pass : Pass ℚ} (ready : Ready fuel extents pass) :
    ∃ next, inclusiveTime nthElement fuel etimeinterval profile pass = some next ∧
      (CountsOnce etimeinterval extents samples pass.values next.values ↔
        ∀ sample ∈ samples, sample.time ≠ 0 → ∀ subextent ∈ extents,
          framesInside etimeinterval subextent sample.trace ≤ 1) ∧
      ∀ function : Finset (Fin extents.length), Apart extents function →
        (∀ sample ∈ samples, (framesOf etimeinterval extents function sample.trace).length ≤ 1) →
        ∑ k ∈ function, (next.values.getD k 0 - pass.values.getD k 0) ≤ (samples.map Sample.time).sum := by
  obtain ⟨next, ran, -, adds⟩ := inclusiveTime_adds read ready
  have nonneg : ∀ sample ∈ samples, 0 ≤ sample.time :=
    fun _ member => (of_mem_samples read member).2
  refine ⟨next, ran, countsOnce_iff nonneg ready.room adds, fun function apart single => ?_⟩
  refine le_trans (Finset.sum_le_sum fun k _ => ?_) (function_le apart nonneg single)
  have present := List.getElem?_eq_getElem (Nat.lt_of_lt_of_le k.2 ready.room)
  have gained := adds.value k extents[k] _ (List.getElem?_eq_getElem k.2) present
  rw [List.getD_eq_getElem?_getD, List.getD_eq_getElem?_getD, gained, present, Option.getD_some,
    Option.getD_some, add_sub_cancel_left]

theorem Adds.gain {change : Extent → ℚ} {before after : List ℚ} (room : extents.length ≤ before.length)
    (adds : Adds extents (fun subextent value => value + change subextent) before after) (k : Fin extents.length) :
    after.getD k 0 - before.getD k 0 = change extents[k] := by
  have present := List.getElem?_eq_getElem (Nat.lt_of_lt_of_le k.2 room)
  have gained := adds.value k extents[k] _ (List.getElem?_eq_getElem k.2) present
  rw [List.getD_eq_getElem?_getD, List.getD_eq_getElem?_getD, gained, present, Option.getD_some,
    Option.getD_some, add_sub_cancel_left]

/-- Exclusive times, which count first frames only, add up to no more than the sampled time for
subextents that lie apart, recursion or not, and are between zero and the inclusive ones. -/
theorem exclusiveTime_conserved {profile : Profile}
    (read : profile.samples = some samples) {pass : Pass ℚ} (ready : Ready fuel extents pass) :
    ∃ exclusive inclusive, exclusiveTime nthElement fuel etimeinterval profile pass = some exclusive ∧
      inclusiveTime nthElement fuel etimeinterval profile pass = some inclusive ∧
      (∀ k : Fin extents.length, 0 ≤ exclusive.values.getD k 0 - pass.values.getD k 0 ∧
        exclusive.values.getD k 0 ≤ inclusive.values.getD k 0) ∧
      ∀ function : Finset (Fin extents.length), Apart extents function →
        ∑ k ∈ function, (exclusive.values.getD k 0 - pass.values.getD k 0) ≤ (samples.map Sample.time).sum := by
  obtain ⟨exclusive, ran, -, adds⟩ := @getMetricValues_adds _ _ _ _ _ true _ read _ ready
  obtain ⟨inclusive, ranAll, -, addsAll⟩ := inclusiveTime_adds read ready
  have nonneg : ∀ sample ∈ samples, 0 ≤ sample.time := fun _ member => (of_mem_samples read member).2
  refine ⟨exclusive, inclusive, ran, ranAll, fun k => ⟨?_, ?_⟩, fun function apart => ?_⟩
  · rw [adds.gain ready.room]
    refine List.sum_nonneg (List.forall_mem_map.mpr fun sample member => ?_)
    exact mul_nonneg (Nat.cast_nonneg _) (mul_nonneg (nonneg sample member) (fraction_nonneg _))
  · have below : (samples.map fun sample => framesInside etimeinterval extents[k] (used true sample) *
        (sample.time * fraction etimeinterval extents[k])).sum ≤ (samples.map fun sample =>
          framesInside etimeinterval extents[k] sample.trace *
            (sample.time * fraction etimeinterval extents[k])).sum := by
      refine List.sum_le_sum fun sample member => mul_le_mul_of_nonneg_right ?_
        (mul_nonneg (nonneg sample member) (fraction_nonneg _))
      exact Nat.cast_le.mpr (List.take_sublist 1 sample.trace).countP_le
    rw [← adds.gain ready.room k, ← addsAll.gain ready.room k] at below
    exact (sub_le_sub_iff_right _).mp below
  · simp only [adds.gain ready.room]
    have first := @function_le etimeinterval extents
      (samples.map fun sample => { sample with trace := used true sample }) function apart
    simp only [List.forall_mem_map, List.map_map] at first
    refine first nonneg fun sample _ => (List.length_filter_le _ _).trans ?_
    exact List.length_take_le 1 _

def twoFrames (first second : UInt64) : Profile :=
  .usertime ⟨1000000000, [first, second], [1, 0]⟩

def oneSubextent : Pass ℚ :=
  ⟨(ExtentGroup.new 0).pushBack ⟨⟨0, 10⟩, ⟨100, 200⟩⟩, [0]⟩

theorem oneSubextent_ready : Ready 2 [⟨⟨0, 10⟩, ⟨100, 200⟩⟩] oneSubextent :=
  ⟨(consistent_new 0).pushBack _, rfl, by decide, by decide⟩

theorem twoFrames_samples (first second : UInt64) : (twoFrames first second).samples =
    some [usertimeSample 1000000000 ([first, second].filter keptAddress, 1)] :=
  rfl

theorem inclusiveTime_counts_caller :
    ∃ next, inclusiveTime NthElement.bySorting 2 ⟨0, 10⟩ (twoFrames 150 350) oneSubextent = some next ∧
      CountsOnce ⟨0, 10⟩ [⟨⟨0, 10⟩, ⟨100, 200⟩⟩]
        [usertimeSample 1000000000 ([150, 350], 1)] [0] next.values := by
  obtain ⟨next, ran, counts, -⟩ := @inclusiveTime_counts_iff NthElement.bySorting _ _ _ _ _
    (twoFrames_samples 150 350) _ oneSubextent_ready
  refine ⟨next, ran, counts.mpr ?_⟩
  intro sample member _ subextent isSubextent
  obtain rfl := List.mem_singleton.mp member
  obtain rfl := List.mem_singleton.mp isSubextent
  decide

theorem recursion_counted_twice : ¬ ∀ (nthElement : NthElement) (fuel : Nat)
    (etimeinterval : TimeInterval) (extents : List Extent) (profile : Profile)
    (samples : List Sample) (pass : Pass ℚ), profile.samples = some samples →
      Ready fuel extents pass → ∃ next, inclusiveTime nthElement fuel etimeinterval profile pass =
        some next ∧ CountsOnce etimeinterval extents samples pass.values next.values := by
  intro always
  have read := twoFrames_samples 150 160
  obtain ⟨next, ran, counts⟩ := always NthElement.bySorting 2 ⟨0, 10⟩ _ _ _ _ read oneSubextent_ready
  obtain ⟨again, ranAgain, -, adds⟩ := inclusiveTime_adds read oneSubextent_ready
  obtain rfl := Option.some.inj (ran.symm.trans ranAgain)
  have nonneg := fun sample member => (@of_mem_samples _ _ read sample member).2
  rw [countsOnce_iff nonneg oneSubextent_ready.room adds] at counts
  have single := counts _ List.mem_cons_self (by decide +kernel) _ List.mem_cons_self
  revert single
  decide

theorem exclusiveTime_conserved_recursion : ∃ exclusive,
    exclusiveTime NthElement.bySorting 2 ⟨0, 10⟩ (twoFrames 150 160) oneSubextent = some exclusive ∧
      0 ≤ exclusive.values.getD 0 0 - oneSubextent.values.getD 0 0 := by
  obtain ⟨exclusive, _, ran, -, between, -⟩ := @exclusiveTime_conserved NthElement.bySorting _ _ _ _ _
    (twoFrames_samples 150 160) _ oneSubextent_ready
  exact ⟨exclusive, ran, (between ⟨0, by decide⟩).1⟩

end InclusiveTime

end OpenSpeedShop
