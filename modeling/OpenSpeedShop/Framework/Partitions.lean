import OpenSpeedShop.Framework.AddressBitmap
import OpenSpeedShop.Framework.SymbolTableCore
import Mathlib.Data.List.Nodup

/-!
The partitions of an address set: the worklist ends, no address is lost or added,
and sets are split at the gaps that are wider than the header of a row.
-/

namespace OpenSpeedShop

open Fallible
open List (mem_cons pairwise_cons mem_append sum_cons map_cons pairwise_append mem_cons_of_mem)

namespace SymbolTable

def gapBetween (prev current : Address) : Int64 := (Interval.getWidth ⟨prev, current⟩ - 1).toInt64

def Wide (prev current : Address) : Prop := gapBetween prev current > partitioningCriteria

theorem toInt_partitioningCriteria : partitioningCriteria.toInt = 160 := rfl

theorem wide_iff {prev current : Address} (ordered : prev < current) : Wide prev current ↔
    160 < current.toNat - prev.toNat - 1 ∧ current.toNat - prev.toNat - 1 < 2 ^ 63 := by
  have width := @AddressRange.toNat_getWidth ⟨prev, current⟩ ordered.le
  rw [UInt64.lt_iff_toNat_lt] at ordered
  have one : (1 : UInt64) ≤ Interval.getWidth ⟨prev, current⟩ := by
    rw [UInt64.le_iff_toNat_le, width, UInt64.toNat_one]
    dsimp only
    omega
  have between := toNat_sub_of_le one
  rw [width, UInt64.toNat_one] at between
  have signed : (gapBetween prev current).toInt = (Interval.getWidth ⟨prev, current⟩ - 1).toBitVec.toInt := rfl
  have value : (Interval.getWidth ⟨prev, current⟩ - 1).toBitVec.toNat =
      (Interval.getWidth ⟨prev, current⟩ - 1).toNat := rfl
  have bound := current.toNat_lt
  rw [Wide, gt_iff_lt, Int64.lt_iff_toInt_lt, toInt_partitioningCriteria, signed,
    BitVec.toInt_eq_toNat_cond, value, between]
  dsimp only
  split <;> omega

structure Adjacent (addresses : AddressSet) (prev current : Address) : Prop where
  prevMember : prev ∈ addresses.addresses
  currentMember : current ∈ addresses.addresses
  ordered : prev < current
  apart : ∀ other ∈ addresses.addresses, other ≤ prev ∨ current ≤ other

variable {addresses : AddressSet}

theorem Adjacent.exists_split {prev current : Address} (adjacent : Adjacent addresses prev current) :
    ∃ before after, addresses.addresses = before ++ prev :: current :: after := by
  obtain ⟨before, rest, same⟩ := List.append_of_mem adjacent.prevMember
  have sorted := addresses.sorted
  rw [same] at sorted
  obtain ⟨-, sortedRest, crossed⟩ := pairwise_append.mp sorted
  obtain ⟨above, sortedLater⟩ := pairwise_cons.mp sortedRest
  have later : current ∈ rest := by
    have member := adjacent.currentMember
    rw [same] at member
    rcases mem_append.mp member with early | here
    · exact absurd (crossed current early prev (by simp)) (lt_asymm adjacent.ordered)
    · rcases mem_cons.mp here with rfl | later
      · exact absurd adjacent.ordered (lt_irrefl _)
      · exact later
  cases rest with
  | nil => exact absurd later List.not_mem_nil
  | cons next after =>
    refine ⟨before, after, ?_⟩
    have next_above : prev < next := above next (by simp)
    have reached : current ≤ next := by
      rcases adjacent.apart next (by rw [same]; simp) with below | reached
      · exact absurd next_above (not_lt.mpr below)
      · exact reached
    rcases mem_cons.mp later with rfl | beyond
    · exact same
    · exact absurd ((pairwise_cons.mp sortedLater).1 current beyond) (not_lt.mpr reached)

theorem adjacent_of_split {before after : List Address}
    {prev current : Address} (same : addresses.addresses = before ++ prev :: current :: after) :
    Adjacent addresses prev current := by
  have sorted := addresses.sorted
  rw [same] at sorted
  obtain ⟨-, sortedRest, crossed⟩ := pairwise_append.mp sorted
  obtain ⟨above, sortedLater⟩ := pairwise_cons.mp sortedRest
  refine ⟨by simp [same], by simp [same], above current (by simp), fun other member => ?_⟩
  rw [same] at member
  rcases mem_append.mp member with early | here
  · exact .inl (crossed other early prev (by simp)).le
  · rcases mem_cons.mp here with rfl | later
    · exact .inl le_rfl
    · rcases mem_cons.mp later with rfl | beyond
      · exact .inr le_rfl
      · exact .inr ((pairwise_cons.mp sortedLater).1 other beyond).le

theorem widestGap_total {addresses : List Address} : ∀ {place : Nat} {widest : Nat × Int64},
    addresses.Pairwise (· < ·) → ∃ found, widestGap addresses place widest = .ok found ∧
      widest.2 ≤ found.2 ∧ (∀ before prev current after, addresses = before ++ prev :: current :: after →
        gapBetween prev current ≤ found.2) ∧ (found = widest ∨ ∃ before prev current after,
        addresses = before ++ prev :: current :: after ∧
        found = (place + before.length, gapBetween prev current)) := by
  induction addresses with
  | nil => exact fun {_ widest} _ => ⟨widest, rfl, Int64.le_refl _, by simp, .inl rfl⟩
  | cons first rest ih =>
    intro place widest sorted
    cases rest with
    | nil =>
      refine ⟨widest, rfl, Int64.le_refl _, fun before prev current after same => ?_, .inl rfl⟩
      have short := congrArg List.length same
      simp at short
      omega
    | cons second rest =>
      obtain ⟨above, sortedRest⟩ := pairwise_cons.mp sorted
      have range := Interval.make_eq_ok.mpr ⟨above second (by simp), rfl⟩
      obtain ⟨found, ran, grown, bounded, placed⟩ := @ih (place + 1)
        (if gapBetween first second > widest.2 then (place, gapBetween first second) else widest)
        sortedRest
      have both : widest.2 ≤ found.2 ∧ gapBetween first second ≤ found.2 := by
        simp only [Int64.le_iff_toInt_le, gt_iff_lt, Int64.lt_iff_toInt_lt] at grown ⊢
        split at grown
        · dsimp only at grown
          omega
        · omega
      refine ⟨found, by simp only [widestGap, range, ok_bind]; exact ran, both.1, ?_, ?_⟩
      · intro before prev current after same
        cases before with
        | nil =>
          cases same
          exact both.2
        | cons other before =>
          obtain ⟨-, sameRest⟩ := List.cons.inj same
          exact bounded before prev current after sameRest
      · rcases placed with rfl | ⟨before, prev, current, after, same, rfl⟩
        · split
          · exact .inr ⟨[], first, second, rest, rfl, rfl⟩
          · exact .inl rfl
        · refine .inr ⟨first :: before, prev, current, after, by rw [same]; rfl, ?_⟩
          rw [List.length_cons]
          congr 1
          omega

/-- The sets hold the addresses of the input once each, in whole stretches, and
addresses whose gap is not wide stay together. -/
structure Splits (input : AddressSet) (sets : List AddressSet) : Prop where
  perm : (sets.flatMap AddressSet.addresses).Perm input.addresses
  convex : ∀ part ∈ sets, ∀ first ∈ part.addresses, ∀ last ∈ part.addresses,
    ∀ other ∈ input.addresses, first ≤ other → other ≤ last → other ∈ part.addresses
  together : ∀ prev current, Adjacent input prev current → ¬ Wide prev current →
    ∀ part ∈ sets, prev ∈ part.addresses → current ∈ part.addresses

section

variable {input : AddressSet} {sets rest : List AddressSet}

theorem splits_self (input : AddressSet) : Splits input [input] where
  perm := by simp
  convex := by simp_all
  together prev current adjacent _ part member _ := by
    rw [List.mem_singleton.mp member]
    exact adjacent.currentMember

theorem Splits.reorder (splits : Splits input sets) (same : sets.Perm rest) : Splits input rest where
  perm := (same.flatMap_right _).symm.trans splits.perm
  convex part member := splits.convex part (same.mem_iff.mpr member)
  together prev current adjacent narrow part member :=
    splits.together prev current adjacent narrow part (same.mem_iff.mpr member)

theorem Splits.mem_iff (splits : Splits input sets) {address : Address} :
    address ∈ input.addresses ↔ ∃ part ∈ sets, address ∈ part.addresses := by
  rw [← splits.perm.mem_iff, List.mem_flatMap]

variable {part : AddressSet}

theorem Splits.drop_empty (splits : Splits input (part :: rest))
    (empty : part.addresses = []) : Splits input rest where
  perm := by simpa [empty] using splits.perm
  convex other member := splits.convex other (mem_cons_of_mem _ member)
  together prev current adjacent narrow other member :=
    splits.together prev current adjacent narrow other (mem_cons_of_mem _ member)

section

variable {part : AddressSet} {before after : List Address} {prev current : Address}
  (same : part.addresses = before ++ prev :: current :: after)

include same

theorem take_addresses : (part.take (1 + before.length)).addresses = before ++ [prev] := by
  change part.addresses.take _ = _
  rw [same, add_comm, List.take_length_add_append]
  rfl

theorem drop_addresses : (part.drop (1 + before.length)).addresses = current :: after := by
  change part.addresses.drop _ = _
  rw [same, add_comm, List.drop_length_add_append]
  rfl

theorem mem_take_iff {address : Address} :
    address ∈ (part.take (1 + before.length)).addresses ↔ address ∈ part.addresses ∧ address ≤ prev := by
  have sorted := part.sorted
  rw [same] at sorted
  obtain ⟨-, sortedLater, crossed⟩ := pairwise_append.mp sorted
  rw [take_addresses same, same]
  constructor
  · intro member
    rcases mem_append.mp member with early | here
    · exact ⟨by simp [early], (crossed address early prev (by simp)).le⟩
    · rw [List.mem_singleton.mp here]
      exact ⟨by simp, le_rfl⟩
  · rintro ⟨member, below⟩
    rcases mem_append.mp member with early | here
    · exact List.mem_append_left _ early
    · rcases mem_cons.mp here with rfl | later
      · simp
      · exact absurd ((pairwise_cons.mp sortedLater).1 address later) (not_lt.mpr below)

theorem mem_drop_iff {address : Address} :
    address ∈ (part.drop (1 + before.length)).addresses ↔ address ∈ part.addresses ∧ current ≤ address := by
  have sorted := part.sorted
  rw [same] at sorted
  obtain ⟨-, sortedLater, -⟩ := pairwise_append.mp sorted
  have whole : address ∈ part.addresses ↔ address ∈ (part.take (1 + before.length)).addresses ∨
      address ∈ (part.drop (1 + before.length)).addresses := by
    rw [take_addresses same, drop_addresses same, same]
    simp [or_assoc]
  constructor
  · intro member
    refine ⟨whole.mpr (.inr member), ?_⟩
    rw [drop_addresses same] at member
    rcases mem_cons.mp member with rfl | later
    · exact le_rfl
    · exact ((pairwise_cons.mp (pairwise_cons.mp sortedLater).2).1 address later).le
  · rintro ⟨member, above⟩
    rcases whole.mp member with early | late
    · have ordered := (adjacent_of_split same).ordered
      exact absurd (ordered.trans_le above) (not_lt.mpr ((mem_take_iff same).mp early).2)
    · exact late

theorem eq_of_crossed (inInput : ∀ address ∈ part.addresses, address ∈ input.addresses)
    {one next : Address} (neighbours : Adjacent input one next) (inPart : next ∈ part.addresses)
    (below : one ≤ prev) (beyond : prev < next) : one = prev ∧ next = current := by
  have adjacent := adjacent_of_split same
  have nextAbove : current ≤ next :=
    (adjacent.apart next inPart).resolve_left (not_le.mpr beyond)
  have samePrev : one = prev := le_antisymm below
    ((neighbours.apart prev (inInput prev adjacent.prevMember)).resolve_right (not_le.mpr beyond))
  have sameNext : next = current := le_antisymm
    ((neighbours.apart current (inInput current adjacent.currentMember)).resolve_left
      (not_le.mpr (samePrev ▸ adjacent.ordered))) nextAbove
  exact ⟨samePrev, sameNext⟩

end

theorem Splits.split (splits : Splits input (part :: rest))
    {before after : List Address} {prev current : Address}
    (same : part.addresses = before ++ prev :: current :: after) (wide : Wide prev current) :
    Splits input (part.take (1 + before.length) :: part.drop (1 + before.length) :: rest) := by
  have low := @mem_take_iff part before after prev current same
  have high := @mem_drop_iff part before after prev current same
  refine ⟨?_, ?_, ?_⟩
  · have parts : (part.take (1 + before.length)).addresses ++
        (part.drop (1 + before.length)).addresses = part.addresses := List.take_append_drop _ _
    simpa [← List.append_assoc, parts] using splits.perm
  · have whole := splits.convex part (by simp)
    simp only [mem_cons, forall_eq_or_imp, low, high]
    refine ⟨?_, ?_, fun other member => splits.convex other (mem_cons_of_mem _ member)⟩
    · rintro first ⟨isFirst, -⟩ last ⟨isLast, below⟩ other inInput above under
      exact ⟨whole first isFirst last isLast other inInput above under, under.trans below⟩
    · rintro first ⟨isFirst, beyond⟩ last ⟨isLast, -⟩ other inInput above under
      exact ⟨whole first isFirst last isLast other inInput above under, beyond.trans above⟩
  · intro one next neighbours narrow
    have whole := splits.together one next neighbours narrow part (by simp)
    simp only [mem_cons, forall_eq_or_imp, low, high]
    refine ⟨?_, ?_, fun other member =>
      splits.together one next neighbours narrow other (mem_cons_of_mem _ member)⟩
    · rintro ⟨inPart, below⟩
      refine ⟨whole inPart, not_lt.mp fun beyond => narrow ?_⟩
      have inInput : ∀ address ∈ part.addresses, address ∈ input.addresses :=
        fun address member => splits.mem_iff.mpr ⟨part, by simp, member⟩
      obtain ⟨samePrev, sameNext⟩ :=
        eq_of_crossed same inInput neighbours (whole inPart) below beyond
      rw [samePrev, sameNext]
      exact wide
    · rintro ⟨inPart, above⟩
      exact ⟨whole inPart, above.trans neighbours.ordered.le⟩

theorem Splits.same_part_iff (splits : Splits input sets)
    (kept : ∀ part ∈ sets, ∀ prev current, Adjacent part prev current → ¬ Wide prev current)
    {prev current : Address} (adjacent : Adjacent input prev current)
    (member : part ∈ sets) (inside : prev ∈ part.addresses) :
    current ∈ part.addresses ↔ ¬ Wide prev current := by
  refine ⟨fun present => kept part member prev current ⟨inside, present, adjacent.ordered, ?_⟩,
    fun narrow => splits.together prev current adjacent narrow part member inside⟩
  exact fun other isOther => adjacent.apart other (splits.mem_iff.mpr ⟨part, member, isOther⟩)

theorem Splits.adjacent (splits : Splits input sets) (member : part ∈ sets)
    {prev current : Address} (adjacent : Adjacent part prev current) : Adjacent input prev current := by
  refine ⟨splits.mem_iff.mpr ⟨part, member, adjacent.prevMember⟩,
    splits.mem_iff.mpr ⟨part, member, adjacent.currentMember⟩, adjacent.ordered, fun other inInput => ?_⟩
  by_contra between
  obtain ⟨above, below⟩ := not_or.mp between
  have inPart := splits.convex part member prev adjacent.prevMember current adjacent.currentMember other inInput
    (not_le.mp above).le (not_le.mp below).le
  rcases adjacent.apart other inPart with low | high
  · exact above low
  · exact below high

end

def rounds (queue : List AddressSet) : Nat :=
  (queue.map fun addresses => max 1 (2 * addresses.addresses.length - 1)).sum

def Kept (addresses : AddressSet) : Prop :=
  addresses.addresses ≠ [] ∧ ∀ prev current, Adjacent addresses prev current → ¬ Wide prev current

theorem partitionQueue_total {input : AddressSet} {fuel : Nat} : ∀ {queue result : List AddressSet},
    rounds queue < fuel → Splits input (queue ++ result) → (∀ part ∈ result, Kept part) →
    ∃ sets, partitionQueue fuel queue result = .ok sets ∧ Splits input sets ∧ ∀ part ∈ sets, Kept part := by
  induction fuel with
  | zero =>
    intro queue result enough
    omega
  | succ fuel ih =>
    intro queue result enough splits kept
    cases queue with
    | nil => exact ⟨result, rfl, splits, kept⟩
    | cons i queue =>
      simp only [rounds, map_cons, sum_cons] at enough
      have keep : Kept i → ∃ sets, partitionQueue fuel queue (result ++ [i]) = .ok sets ∧
          Splits input sets ∧ ∀ part ∈ sets, Kept part := by
        refine fun isKept => ih (by simp only [rounds]; omega) (splits.reorder ?_) ?_
        · rw [← List.append_assoc]
          exact (List.perm_append_singleton i (queue ++ result)).symm
        · intro part member
          rcases mem_append.mp member with old | new
          · exact kept part old
          · rw [List.mem_singleton.mp new]
            exact isKept
      rw [partitionQueue]
      split
      next empty =>
        exact ih (by simp only [rounds]; omega) (splits.drop_empty (List.eq_nil_of_length_eq_zero empty)) kept
      next nonempty =>
        split
        next single =>
          refine keep ⟨fun empty => nonempty (by rw [empty]; rfl), fun prev current adjacent => ?_⟩
          obtain ⟨before, after, same⟩ := adjacent.exists_split
          rw [same] at single
          simp at single
          omega
        next several =>
          obtain ⟨widest, ran, -, bounded, placed⟩ :=
            @widestGap_total i.addresses 1 (0, 0) i.sorted
          simp only [ran, ok_bind]
          split
          next wide =>
            obtain ⟨before, prev, current, after, same, rfl⟩ := placed.resolve_left (by
              rintro rfl
              exact absurd wide (by decide))
            have length := congrArg List.length same
            simp only [List.length_append, List.length_cons] at length
            refine ih ?_ ((splits.split same wide).reorder ?_) kept
            · simp only [rounds, List.map_append, List.sum_append, map_cons, List.map_nil,
                sum_cons, List.sum_nil, AddressSet.take, AddressSet.drop, List.length_take,
                List.length_drop]
              omega
            · rw [List.append_assoc]
              exact List.perm_append_comm_assoc [i.take _, i.drop _] queue result
          next narrow =>
            refine keep ⟨fun empty => nonempty (by rw [empty]; rfl),
              fun prev current adjacent isWide => narrow ?_⟩
            obtain ⟨before, after, same⟩ := adjacent.exists_split
            have bound := bounded before prev current after same
            simp only [Wide, gt_iff_lt, Int64.lt_iff_toInt_lt, Int64.le_iff_toInt_le] at isWide bound ⊢
            omega

theorem partitionAddressSet_total (addresses : AddressSet) :
    ∃ sets, partitionAddressSet addresses = .ok sets ∧ Splits addresses sets ∧ ∀ part ∈ sets, Kept part := by
  have enough : rounds [addresses] < 2 * addresses.addresses.length + 2 := by
    simp only [rounds, map_cons, List.map_nil, sum_cons, List.sum_nil]
    omega
  exact partitionQueue_total enough (splits_self addresses) (by simp)

theorem partitionAddressSet_ok {sets : List AddressSet} (ran : partitionAddressSet addresses = .ok sets) :
    Splits addresses sets ∧ ∀ part ∈ sets, Kept part := by
  obtain ⟨found, partitioned, exact⟩ := partitionAddressSet_total addresses
  obtain rfl := Except.ok.inj (partitioned.symm.trans ran)
  exact exact

theorem Splits.disjoint {input : AddressSet} {sets : List AddressSet} (splits : Splits input sets) :
    sets.Pairwise fun one two => ∀ address ∈ one.addresses, address ∉ two.addresses := by
  have nodup := splits.perm.nodup_iff.mpr input.sorted.nodup
  exact (List.nodup_flatMap.mp nodup).2.imp fun apart address inOne inTwo => apart inOne inTwo

/-- What the sets are for: addresses next to each other share a set exactly where
the addresses between them take no more bits than the header of a row. -/
structure Clusters (addresses : AddressSet) (sets : List AddressSet) : Prop where
  filled : ∀ part ∈ sets, part.addresses ≠ []
  disjoint : sets.Pairwise fun one two => ∀ address ∈ one.addresses, address ∉ two.addresses
  union : ∀ address, address ∈ addresses.addresses ↔ ∃ part ∈ sets, address ∈ part.addresses
  close : ∀ part ∈ sets, ∀ prev current, Adjacent part prev current →
    current.toNat - prev.toNat - 1 ≤ 8 * (4 + 2 * 8)
  far : ∀ prev current, Adjacent addresses prev current → ∀ part ∈ sets,
    prev ∈ part.addresses → current ∉ part.addresses →
    8 * (4 + 2 * 8) < current.toNat - prev.toNat - 1

/-- Sets are clusters where no gap is so wide that the signed difference is negative. -/
theorem partitionAddressSet_clusters_iff (addresses : AddressSet) :
    (∃ sets, partitionAddressSet addresses = .ok sets ∧ Clusters addresses sets) ↔
      ∀ prev current, Adjacent addresses prev current → current.toNat - prev.toNat - 1 < 2 ^ 63 := by
  obtain ⟨sets, ran, splits, kept⟩ := partitionAddressSet_total addresses
  have narrow := fun part member => (kept part member).2
  constructor
  · rintro ⟨_, again, clusters⟩ prev current adjacent
    obtain rfl := Except.ok.inj (again.symm.trans ran)
    by_contra negative
    obtain ⟨part, member, inside⟩ := (clusters.union prev).mp adjacent.prevMember
    -- a gap that wide is never split
    have notWide : ¬ Wide prev current := fun wide =>
      negative ((wide_iff adjacent.ordered).mp wide).2
    have present := (splits.same_part_iff narrow adjacent member inside).mpr notWide
    have bound := clusters.close part member prev current ⟨inside, present, adjacent.ordered,
      fun other isOther => adjacent.apart other (splits.mem_iff.mpr ⟨part, member, isOther⟩)⟩
    omega
  · intro positive
    refine ⟨sets, ran, fun part member => (kept part member).1, splits.disjoint,
      fun address => splits.mem_iff, fun part member prev current adjacent => ?_,
      fun prev current adjacent part member inside apart => ?_⟩
    · have bound := positive prev current (splits.adjacent member adjacent)
      have notWide := narrow part member prev current adjacent
      rw [wide_iff adjacent.ordered] at notWide
      omega
    · have wide := mt (splits.same_part_iff narrow adjacent member inside).mpr apart
      exact ((wide_iff adjacent.ordered).mp (not_not.mp wide)).1

def farApart : AddressSet := ⟨[0, 0x8000000000000001], by decide⟩

theorem farApart_unsplit : ¬ ∃ sets, partitionAddressSet farApart = .ok sets ∧ Clusters farApart sets := by
  rintro ⟨sets, ran, clusters⟩
  obtain rfl : [farApart] = sets := Except.ok.inj ran
  have adjacent := @adjacent_of_split farApart [] [] 0 0x8000000000000001 rfl
  exact absurd (clusters.close farApart (by simp) _ _ adjacent) (by decide)

end SymbolTable

end OpenSpeedShop
