import OpenSpeedShop.Framework.AddressBitmapContents
import OpenSpeedShop.Framework.FunctionTable
import OpenSpeedShop.Framework.SymbolTable

/-!
When the symbols of a linked object can be stored: offsets are written through signed
differences, and bitmaps with a counter of 32 bits.
-/

namespace OpenSpeedShop

open Fallible
open Address (less_strictTotal addOffset sub_of_le sub_eq_ok)
open Interval (doesContain_iff make_eq_ok)
open UInt64 (lt_iff_toNat_lt le_iff_toNat_le)

namespace SymbolTable

/-- The first and the last of some addresses, of which each stretch of a row header
between them has one. -/
def Dense (covered : Address → Prop) (first last : Address) : Prop :=
  covered first ∧ covered last ∧ first ≤ last ∧ ∀ place, first.toNat ≤ place →
    place + 8 * (4 + 2 * 8) ≤ last.toNat →
    ∃ address, covered address ∧ place ≤ address.toNat ∧ address.toNat ≤ place + 8 * (4 + 2 * 8)

def Countable (covered : Address → Prop) : Prop :=
  ∀ first last, Dense covered first last → last.toNat + 1 - first.toNat < 2 ^ 32

theorem exists_adjacent_below {addresses : AddressSet} {first current : Address}
    (inside : first ∈ addresses.addresses) (member : current ∈ addresses.addresses)
    (below : first < current) : ∃ prev, first ≤ prev ∧ Adjacent addresses prev current := by
  have sorted := addresses.sorted
  obtain ⟨before, after, same⟩ := List.append_of_mem member
  rw [same] at sorted inside
  obtain ⟨-, sortedLater, crossed⟩ := List.pairwise_append.mp sorted
  have early : first ∈ before := by
    rcases List.mem_append.mp inside with early | late
    · exact early
    · rcases List.mem_cons.mp late with rfl | beyond
      · exact absurd below (lt_irrefl _)
      · exact absurd ((List.pairwise_cons.mp sortedLater).1 first beyond) (lt_asymm below)
  obtain ⟨init, prev, rfl⟩ := before.eq_nil_or_concat'.resolve_left (List.ne_nil_of_mem early)
  refine ⟨prev, ?_, @adjacent_of_split addresses init after prev current (by rw [same]; simp)⟩
  rcases List.mem_append.mp early with lower | here
  · have ordered := (List.pairwise_append.mp sorted).1
    exact ((List.pairwise_append.mp ordered).2.2 first lower prev (by simp)).le
  · rw [List.mem_singleton.mp here]

theorem exists_adjacent_above {addresses : AddressSet} {prev last : Address}
    (member : prev ∈ addresses.addresses) (inside : last ∈ addresses.addresses)
    (below : prev < last) : ∃ current, current ≤ last ∧ Adjacent addresses prev current := by
  have sorted := addresses.sorted
  obtain ⟨before, after, same⟩ := List.append_of_mem member
  rw [same] at sorted inside
  obtain ⟨-, sortedLater, crossed⟩ := List.pairwise_append.mp sorted
  have late : last ∈ after := by
    rcases List.mem_append.mp inside with early | late
    · exact absurd (crossed last early prev (by simp)) (lt_asymm below)
    · rcases List.mem_cons.mp late with rfl | beyond
      · exact absurd below (lt_irrefl _)
      · exact beyond
  cases after with
  | nil => exact absurd late List.not_mem_nil
  | cons current after =>
    refine ⟨current, ?_, adjacent_of_split same⟩
    rcases List.mem_cons.mp late with rfl | beyond
    · exact le_rfl
    · exact ((List.pairwise_cons.mp (List.pairwise_cons.mp sortedLater).2).1 last beyond).le

section

variable {addresses : AddressSet} {sets : List AddressSet} (splits : Splits addresses sets)

include splits

theorem Splits.mem_of_dense {first last : Address}
    (dense : Dense (· ∈ addresses.addresses) first last) {part : AddressSet} (member : part ∈ sets)
    (inside : first ∈ part.addresses) : ∀ (bound : Nat) (current : Address), current.toNat = bound →
      current ∈ addresses.addresses → first ≤ current → current ≤ last → current ∈ part.addresses := by
  obtain ⟨isFirst, -, -, filled⟩ := dense
  intro bound
  induction bound using Nat.strong_induction_on with
  | _ bound ih =>
    intro current value isCurrent above below
    rcases eq_or_lt_of_le above with rfl | beyond
    · exact inside
    obtain ⟨prev, after, adjacent⟩ := exists_adjacent_below isFirst isCurrent beyond
    have ordered := adjacent.ordered
    have lower := ih prev.toNat (by rw [lt_iff_toNat_lt] at ordered; omega) prev rfl
      adjacent.prevMember after (ordered.le.trans below)
    refine splits.together prev current adjacent (fun wide => ?_) part member lower
    rw [wide_iff ordered] at wide
    rw [le_iff_toNat_le] at after below
    obtain ⟨address, isAddress, afterPlace, beforePlace⟩ :=
      filled (prev.toNat + 1) (by omega) (by omega)
    rcases adjacent.apart address isAddress with under | above
    · rw [le_iff_toNat_le] at under
      omega
    · rw [le_iff_toNat_le] at above
      omega

theorem Splits.countable_iff (low : ∀ address ∈ addresses.addresses, address.toNat < 2 ^ 63)
    (kept : ∀ part ∈ sets, Kept part) : (∀ part ∈ sets, ∀ first ∈ part.addresses, ∀ last ∈ part.addresses,
      last.toNat + 1 - first.toNat < 2 ^ 32) ↔ Countable (· ∈ addresses.addresses) := by
  constructor
  · intro narrow first last dense
    obtain ⟨part, member, inside⟩ := splits.mem_iff.mp dense.1
    exact narrow part member first inside last
      (splits.mem_of_dense dense member inside last.toNat last rfl dense.2.1 dense.2.2.1 le_rfl)
  · intro countable part member first isFirst last isLast
    rcases lt_or_ge last first with inverted | ordered
    · rw [lt_iff_toNat_lt] at inverted
      omega
    have inInput : ∀ address ∈ part.addresses, address ∈ addresses.addresses :=
      fun address inside => splits.mem_iff.mpr ⟨part, member, inside⟩
    refine countable first last ⟨inInput first isFirst, inInput last isLast, ordered, ?_⟩
    intro place above below
    -- the highest address of the part that is not above the place, and the one after it
    by_contra missing
    have climbs : ∀ (steps : Nat) (prev : Address), last.toNat - prev.toNat = steps →
        prev ∈ part.addresses → prev.toNat < place → False := by
      intro steps
      induction steps using Nat.strong_induction_on with
      | _ steps ih =>
        intro prev left isPrev under
        obtain ⟨current, upTo, adjacent⟩ := @exists_adjacent_above part prev last isPrev isLast
          (by rw [lt_iff_toNat_lt]; omega)
        have notWide := (kept part member).2 prev current adjacent
        have isLow := low current (inInput current adjacent.currentMember)
        have ordered := adjacent.ordered
        rw [wide_iff ordered] at notWide
        rw [lt_iff_toNat_lt] at ordered
        rw [le_iff_toNat_le] at upTo
        rcases lt_or_ge current.toNat place with lower | reached
        · exact ih _ (by omega) current rfl adjacent.currentMember lower
        · exact missing ⟨current, inInput current adjacent.currentMember, reached, by omega⟩
    rcases lt_or_ge first.toNat place with lower | reached
    · exact climbs _ first rfl isFirst lower
    · exact missing ⟨first, inInput first isFirst, reached, by omega⟩

end

theorem insertRange_returns_iff {Columns : Type} {tables : ObjectTables Columns} {object : Int32}
    {range : AddressRange} {addresses : List Address} (ordered : range.dmBegin < range.dmEnd)
    (inside : ∀ address ∈ addresses, range.doesContain address = true) :
    (∃ bitmap after, populate range addresses = .ok bitmap ∧ tables.insertRange object bitmap = .ok after) ↔
    range.dmEnd.toNat - range.dmBegin.toNat < 2 ^ 32 := by
  have width := AddressRange.toNat_getWidth ordered.le
  constructor
  · rintro ⟨bitmap, after, populated, inserted⟩
    obtain ⟨blob, written, -⟩ := bind_eq_ok.mp inserted
    by_contra wide
    refine AddressBitmap.getBlob_ne_ok ?_ blob written
    rw [(populate_eq_ok populated).1, width]
    omega
  · intro narrow
    obtain ⟨bitmap, populated⟩ := @setValues_total addresses (AddressBitmap.ofRange range)
      fun address member => by
        obtain ⟨above, below⟩ := (doesContain_iff _ _).mp (inside address member)
        rw [le_iff_toNat_le] at above
        rw [lt_iff_toNat_lt] at below
        exact ⟨inside address member, by simp only [AddressBitmap.ofRange]; omega⟩
    obtain ⟨same, -⟩ := populate_eq_ok populated
    rw [lt_iff_toNat_lt] at ordered
    obtain ⟨blob, written, -⟩ := @AddressBitmap.getBlob_total bitmap (by rw [same]; omega)
      (by rw [same]; omega)
    exact ⟨bitmap, _, populated, by simp only [ObjectTables.insertRange, written, ok_bind]; rfl⟩

theorem storeAddressSet_returns_iff {Columns : Type} {object : Int32}
    {tables : ObjectTables Columns} {addresses : AddressSet} (filled : addresses.addresses ≠ [])
    (low : ∀ address ∈ addresses.addresses, address.toNat < 2 ^ 63) :
    (∃ after, storeAddressSet object tables addresses = .ok after) ↔
      ∀ first ∈ addresses.addresses, ∀ last ∈ addresses.addresses, last.toNat + 1 - first.toNat < 2 ^ 32 := by
  obtain ⟨last, isLast⟩ : ∃ last, addresses.addresses.getLast? = some last :=
    ⟨_, List.getLast?_eq_some_getLast filled⟩
  obtain ⟨first, isFirst⟩ : ∃ first, addresses.addresses.head? = some first :=
    ⟨_, List.head?_eq_some_head filled⟩
  have sorted := addresses.sorted
  have bounds : ∀ address ∈ addresses.addresses, first ≤ address ∧ address ≤ last := by
    intro address member
    constructor
    · obtain ⟨rest, same⟩ := List.head?_eq_some_iff.mp isFirst
      rw [same] at sorted member
      rcases List.mem_cons.mp member with rfl | later
      · exact le_rfl
      · exact ((List.pairwise_cons.mp sorted).1 address later).le
    · obtain ⟨init, same⟩ := List.getLast?_eq_some_iff.mp isLast
      rw [same] at sorted member
      rcases List.mem_append.mp member with earlier | here
      · exact ((List.pairwise_append.mp sorted).2.2 address earlier last (by simp)).le
      · rw [List.mem_singleton.mp here]
  have firstMember := List.mem_of_head? isFirst
  have lastMember := List.mem_of_getLast? isLast
  have lastLow := low last lastMember
  have next : (addOffset last 1).toNat = last.toNat + 1 := by
    have one : (1 : Int64).toUInt64 = 1 := rfl
    rw [addOffset, one, UInt64.toNat_add, UInt64.toNat_one]
    omega
  have firstBelow := (bounds last lastMember).1
  rw [le_iff_toNat_le] at firstBelow
  have ordered : first < addOffset last 1 := by
    rw [lt_iff_toNat_lt]
    omega
  have stored := @insertRange_returns_iff Columns tables object
    ⟨first, addOffset last 1⟩ addresses.addresses ordered fun address member => by
      obtain ⟨above, below⟩ := bounds address member
      rw [le_iff_toNat_le] at below
      rw [doesContain_iff, lt_iff_toNat_lt]
      exact ⟨above, by simp only [next]; omega⟩
  simp only [next] at stored
  have whole : (∀ low ∈ addresses.addresses, ∀ high ∈ addresses.addresses,
      high.toNat + 1 - low.toNat < 2 ^ 32) ↔ last.toNat + 1 - first.toNat < 2 ^ 32 := by
    refine ⟨fun narrow => narrow first firstMember last lastMember, fun narrow low isLow high isHigh => ?_⟩
    have above := (bounds low isLow).1
    have below := (bounds high isHigh).2
    rw [le_iff_toNat_le] at above below
    omega
  rw [whole, ← stored]
  simp only [storeAddressSet, isFirst, isLast, make_eq_ok.mpr ⟨ordered, rfl⟩, ok_bind]
  constructor
  · rintro ⟨after, ran⟩
    obtain ⟨bitmap, populated, inserted⟩ := bind_eq_ok.mp ran
    exact ⟨bitmap, after, populated, inserted⟩
  · rintro ⟨bitmap, after, populated, inserted⟩
    exact ⟨after, by rw [populated, ok_bind, inserted]⟩

section

variable {dmRange : AddressRange} {linkedObject : Int32}

def FunctionFits (dmRange range : AddressRange) : Prop :=
  range.dmEnd.toNat - dmRange.dmBegin.toNat < 2 ^ 63 ∧ range.dmEnd.toNat - range.dmBegin.toNat < 2 ^ 32

theorem storeFunction_returns_iff {tables : ObjectTables String} {entry : AddressRange × String}
    (isAccepted : Accepted dmRange entry.1) :
    (∃ after, storeFunction dmRange linkedObject tables entry = .ok after) ↔ FunctionFits dmRange entry.1 := by
  obtain ⟨nonempty, above, below⟩ := isAccepted
  have aboveEnd := above.trans nonempty.le
  have firstValue := toNat_sub_of_le above
  have lastValue := toNat_sub_of_le aboveEnd
  have ordered : entry.1.dmBegin - dmRange.dmBegin < entry.1.dmEnd - dmRange.dmBegin := by
    rw [lt_iff_toNat_lt, firstValue, lastValue]
    rw [lt_iff_toNat_lt] at nonempty
    rw [le_iff_toNat_le] at above
    omega
  have inserts := @insertRange_returns_iff String (tables.insertObject linkedObject entry.2).2
    (tables.insertObject linkedObject entry.2).1
    ⟨entry.1.dmBegin - dmRange.dmBegin, entry.1.dmEnd - dmRange.dmBegin⟩ _ ordered
    fun address member => (AddressRange.mem_addresses ordered.le).mp member
  have rebased : ∀ k : Address, (k - dmRange.dmBegin).toInt64.toUInt64 = k - dmRange.dmBegin :=
    fun _ => rfl
  simp only [firstValue, lastValue] at inserts
  rw [le_iff_toNat_le] at above
  rw [lt_iff_toNat_lt] at nonempty
  constructor
  · rintro ⟨after, ran⟩
    simp only [storeFunction, bind_eq_ok, make_eq_ok] at ran
    obtain ⟨first, subFirst, last, subLast, range, ⟨-, rfl⟩, bitmap, populated, inserted⟩ := ran
    rw [(sub_eq_ok (le_iff_toNat_le.mpr above) subFirst).1,
      (sub_eq_ok aboveEnd subLast).1] at populated
    have narrow := inserts.mp ⟨bitmap, after, populated, inserted⟩
    exact ⟨(sub_eq_ok aboveEnd subLast).2, by omega⟩
  · rintro ⟨near, narrow⟩
    obtain ⟨bitmap, after, populated, inserted⟩ := inserts.mpr (by omega)
    have first := @sub_of_le entry.1.dmBegin dmRange.dmBegin
      (le_iff_toNat_le.mpr above) (by omega)
    have last := sub_of_le aboveEnd near
    refine ⟨after, ?_⟩
    simp only [storeFunction, first, last, ok_bind, rebased, make_eq_ok.mpr ⟨ordered, rfl⟩, populated]
    exact inserted

theorem storeEntry_returns_iff {Columns : Type} {columns : Columns} {ranges : List AddressRange}
    {tables : ObjectTables Columns} (accepted : ∀ range ∈ ranges, Accepted dmRange range)
    (low : ∀ range ∈ ranges, range.dmEnd.toNat ≤ 2 ^ 63) :
    (∃ after, storeEntry dmRange linkedObject columns ranges tables = .ok after) ↔
      Countable (Offsets dmRange ranges) := by
  have bounds : ∀ range ∈ ranges, ∀ k, range.doesContain k = true →
      dmRange.dmBegin ≤ k ∧ k.toNat < 2 ^ 63 := by
    intro range present k inside
    obtain ⟨above, below⟩ := (doesContain_iff _ _).mp inside
    have highest := low range present
    rw [lt_iff_toNat_lt] at below
    exact ⟨(accepted range present).2.1.trans above, by omega⟩
  have relative : ∃ addresses, relativeAddresses dmRange ranges = .ok addresses := by
    refine foldlM_total (fun addresses k member => ?_) AddressSet.empty
    obtain ⟨range, present, listed⟩ := List.mem_flatMap.mp member
    obtain ⟨above, isLow⟩ := bounds range present k
      ((AddressRange.mem_addresses (accepted range present).1.le).mp listed)
    exact ⟨_, by rw [sub_of_le above (by omega), ok_bind]; rfl⟩
  obtain ⟨addresses, made⟩ := relative
  have exact := relativeAddresses_ok
    (fun range present => ⟨(accepted range present).1, (accepted range present).2.1⟩) made
  have lowOffsets : ∀ offset ∈ addresses.addresses, offset.toNat < 2 ^ 63 := by
    intro offset member
    obtain ⟨range, present, inside⟩ := (exact offset).mp member
    obtain ⟨nonempty, above, -⟩ := accepted range present
    have contained := (doesContain_sub above nonempty offset).mpr inside
    obtain ⟨-, under⟩ := (doesContain_iff _ _).mp contained
    have highest := low range present
    rw [lt_iff_toNat_lt, toNat_sub_of_le (above.trans nonempty.le)] at under
    omega
  obtain ⟨sets, partitioned, splits, kept⟩ := partitionAddressSet_total addresses
  have inInput : ∀ part ∈ sets, ∀ offset ∈ part.addresses, offset.toNat < 2 ^ 63 :=
    fun part member offset inside => lowOffsets offset (splits.mem_iff.mpr ⟨part, member, inside⟩)
  have sameOffsets : (· ∈ addresses.addresses) = Offsets dmRange ranges := by
    funext offset
    exact propext (exact offset)
  rw [← sameOffsets, ← splits.countable_iff lowOffsets kept]
  simp only [storeEntry, made, partitioned, ok_bind]
  exact foldlM_returns_iff (fun part member tables =>
    @storeAddressSet_returns_iff _ _ tables part (kept part member).1 (inInput part member)) _

theorem storeLoop_returns_iff {entry : Address × List AddressRange} {tables : ObjectTables Int64}
    (accepted : ∀ range ∈ entry.2, Accepted dmRange range)
    (low : ∀ range ∈ entry.2, range.dmEnd.toNat ≤ 2 ^ 63) :
    (∃ after, storeLoop dmRange linkedObject tables entry = .ok after) ↔
      (entry.1.toNat - dmRange.dmBegin.toNat < 2 ^ 63 ∧
        dmRange.dmBegin.toNat - entry.1.toNat ≤ 2 ^ 63) ∧ Countable (Offsets dmRange entry.2) := by
  rw [← Address.sub_returns_iff]
  constructor
  · rintro ⟨after, ran⟩
    obtain ⟨head, subtracted, stored⟩ := bind_eq_ok.mp ran
    exact ⟨⟨head, subtracted⟩, (storeEntry_returns_iff accepted low).mp ⟨after, stored⟩⟩
  · rintro ⟨⟨head, subtracted⟩, countable⟩
    obtain ⟨after, stored⟩ := (storeEntry_returns_iff accepted low).mpr countable
    exact ⟨after, by rw [storeLoop, subtracted, ok_bind, stored]⟩

theorem storeStatement_returns_iff {entry : StatementEntry × List AddressRange}
    {tables : List FileRow × ObjectTables StatementColumns}
    (accepted : ∀ range ∈ entry.2, Accepted dmRange range)
    (low : ∀ range ∈ entry.2, range.dmEnd.toNat ≤ 2 ^ 63) :
    (∃ after, storeStatement dmRange linkedObject tables entry = .ok after) ↔
      Countable (Offsets dmRange entry.2) := by
  constructor
  · rintro ⟨after, ran⟩
    simp only [storeStatement] at ran
    split at ran
    all_goals
      obtain ⟨statements, stored, -⟩ := bind_eq_ok.mp ran
      exact (storeEntry_returns_iff accepted low).mp ⟨statements, stored⟩
  · intro countable
    simp only [storeStatement]
    split
    all_goals
      obtain ⟨statements, stored⟩ := (storeEntry_returns_iff accepted low).mpr countable
      exact ⟨_, by rw [stored]; rfl⟩

end

theorem processAndStore_eq_ok {table : SymbolTable} {linkedObject : Int32}
    {tables after : SymbolTables} : table.processAndStore linkedObject tables = .ok after ↔
      after.addressSpaces = tables.addressSpaces ∧
      table.dmFunctions.foldlM (storeFunction table.dmRange linkedObject) tables.functions =
        .ok after.functions ∧
      table.dmLoops.foldlM (storeLoop table.dmRange linkedObject) tables.loops = .ok after.loops ∧
      table.dmStatements.foldlM (storeStatement table.dmRange linkedObject)
        (tables.files, tables.statements) = .ok (after.files, after.statements) := by
  simp only [processAndStore, bind_eq_ok]
  constructor
  · rintro ⟨functions, storedFunctions, loops, storedLoops, ⟨files, statements⟩, stored, returned⟩
    cases returned
    exact ⟨rfl, storedFunctions, storedLoops, stored⟩
  · rintro ⟨spaces, storedFunctions, storedLoops, stored⟩
    refine ⟨_, storedFunctions, _, storedLoops, _, stored, ?_⟩
    cases after
    simp only at spaces
    rw [spaces]
    rfl

def OffsetsOf (dmRange : AddressRange) (added : AddressRange → Prop) (offset : Address) : Prop :=
  ∃ range, added range ∧ range.doesContain (dmRange.dmBegin + offset) = true

structure Storable (dmRange : AddressRange) (calls : List Call) : Prop where
  returns : ∀ call ∈ calls, call.Returns dmRange
  functions : ∀ entry ∈ firstCome dmRange calls, FunctionFits dmRange entry.1
  heads : ∀ head range, LoopAdded dmRange calls head range →
    head.toNat - dmRange.dmBegin.toNat < 2 ^ 63 ∧ dmRange.dmBegin.toNat - head.toNat ≤ 2 ^ 63
  loops : ∀ head, Countable (OffsetsOf dmRange (LoopAdded dmRange calls head))
  statements : ∀ statement, Countable (OffsetsOf dmRange (StatementAdded dmRange calls statement))

structure EntriesStorable (dmRange : AddressRange) (calls : List Call) : Prop where
  heads : ∀ head range, LoopAdded dmRange calls head range →
    head.toNat - dmRange.dmBegin.toNat < 2 ^ 63 ∧ dmRange.dmBegin.toNat - head.toNat ≤ 2 ^ 63
  loops : ∀ head, Countable (OffsetsOf dmRange (LoopAdded dmRange calls head))
  statements : ∀ statement, Countable (OffsetsOf dmRange (StatementAdded dmRange calls statement))

theorem countable_of_narrow {dmRange : AddressRange} {added : AddressRange → Prop}
    (narrow : dmRange.dmEnd.toNat - dmRange.dmBegin.toNat < 2 ^ 32)
    (accepted : ∀ range, added range → Accepted dmRange range) : Countable (OffsetsOf dmRange added) := by
  rintro first last ⟨-, ⟨range, isAdded, inside⟩, -, -⟩
  obtain ⟨nonempty, above, below⟩ := accepted range isAdded
  have under := ((doesContain_iff _ _).mp ((doesContain_sub above nonempty last).mpr inside)).2
  rw [lt_iff_toNat_lt, toNat_sub_of_le (above.trans nonempty.le)] at under
  rw [le_iff_toNat_le] at below
  omega

theorem storable_of_narrow {dmRange : AddressRange} {calls : List Call}
    (narrow : dmRange.dmEnd.toNat - dmRange.dmBegin.toNat < 2 ^ 32)
    (returns : ∀ call ∈ calls, call.Returns dmRange)
    (heads : ∀ head range, LoopAdded dmRange calls head range →
      head.toNat - dmRange.dmBegin.toNat < 2 ^ 63 ∧ dmRange.dmBegin.toNat - head.toNat ≤ 2 ^ 63) :
    Storable dmRange calls where
  returns := returns
  functions entry member := by
    obtain ⟨-, above, below⟩ := firstCome_accepted dmRange calls entry member
    rw [le_iff_toNat_le] at above below
    exact ⟨by omega, by omega⟩
  heads := heads
  loops _ := countable_of_narrow narrow fun _ isAdded => isAdded.1
  statements _ := countable_of_narrow narrow fun _ isAdded => isAdded.1

section

variable {dmRange : AddressRange} {calls : List Call} {table : SymbolTable}
  {linkedObject : Int32} {tables : SymbolTables}

theorem Holds.loopsAbove (holds : Holds dmRange calls table) :
    ∀ entry ∈ table.dmLoops, ∀ range ∈ entry.2, Accepted dmRange range := by
  rintro ⟨head, ranges⟩ member range present
  exact ((holds.loops.mem_iff less_strictTotal member range).mp present).1

theorem Holds.statementsAbove (holds : Holds dmRange calls table) :
    ∀ entry ∈ table.dmStatements, ∀ range ∈ entry.2, Accepted dmRange range := by
  rintro ⟨statement, ranges⟩ member range present
  exact ((holds.statements.mem_iff StatementEntry.less_strictTotal member range).mp present).1

theorem low_of_returns {call : Call} (returns : call.Returns dmRange)
    (isAccepted : Accepted dmRange ⟨call.bounds.1, call.bounds.2⟩) : call.bounds.2.toNat ≤ 2 ^ 63 := by
  obtain ⟨nonempty, above, below⟩ := isAccepted
  exact returns nonempty ((doesContain_iff _ _).mpr ⟨above, nonempty.trans_le below⟩)

theorem forall_collected_iff {Key : Type} {less : Key → Key → Bool}
    {entries : List (Key × List AddressRange)} {added : Key → AddressRange → Prop}
    (order : OrderedMap.StrictTotal less) (collects : OrderedMap.Collects less entries added) :
    (∀ entry ∈ entries, Countable (Offsets dmRange entry.2)) ↔
      ∀ key, Countable (OffsetsOf dmRange (added key)) := by
  have same : ∀ key ranges, (key, ranges) ∈ entries →
      Offsets dmRange ranges = OffsetsOf dmRange (added key) := by
    intro key ranges member
    funext offset
    simp only [Offsets, OffsetsOf, collects.mem_iff order member]
  constructor
  · intro each key first last dense
    obtain ⟨range, isAdded, -⟩ := dense.1
    obtain ⟨ranges, member⟩ := collects.exists_mem order isAdded
    rw [← same key ranges member] at dense
    exact each _ member first last dense
  · rintro each ⟨key, ranges⟩ member
    rw [same key ranges member]
    exact each key

theorem processAndStore_returns_iff_fits (holds : Holds dmRange calls table)
    (returns : ∀ call ∈ calls, call.Returns dmRange) :
    (∃ after, table.processAndStore linkedObject tables = .ok after) ↔
      (∀ entry ∈ table.dmFunctions, FunctionFits dmRange entry.1) ∧ EntriesStorable dmRange calls := by
  have loopsLow : ∀ entry ∈ table.dmLoops, ∀ range ∈ entry.2, range.dmEnd.toNat ≤ 2 ^ 63 := by
    rintro ⟨head, ranges⟩ member range present
    obtain ⟨isAccepted, called⟩ :=
      (holds.loops.mem_iff less_strictTotal member range).mp present
    exact low_of_returns (returns _ called) isAccepted
  have statementsLow : ∀ entry ∈ table.dmStatements, ∀ range ∈ entry.2, range.dmEnd.toNat ≤ 2 ^ 63 := by
    rintro ⟨statement, ranges⟩ member range present
    obtain ⟨isAccepted, called⟩ :=
      (holds.statements.mem_iff StatementEntry.less_strictTotal member range).mp present
    exact low_of_returns (returns _ called) isAccepted
  have functions := @foldlM_returns_iff _ _ _ (storeFunction dmRange linkedObject) _
    table.dmFunctions (fun entry member _ => storeFunction_returns_iff (holds.functions entry member))
    tables.functions
  have loops := @foldlM_returns_iff _ _ _ (storeLoop dmRange linkedObject) _ table.dmLoops
    (fun entry member _ => storeLoop_returns_iff (holds.loopsAbove entry member)
      (loopsLow entry member)) tables.loops
  have statements := @foldlM_returns_iff _ _ _ (storeStatement dmRange linkedObject) _
    table.dmStatements (fun entry member _ => storeStatement_returns_iff
      (holds.statementsAbove entry member) (statementsLow entry member))
    (tables.files, tables.statements)
  have loopsCountable := @forall_collected_iff dmRange _ _ _ _ less_strictTotal holds.loops
  have statementsCountable :=
    @forall_collected_iff dmRange _ _ _ _ StatementEntry.less_strictTotal holds.statements
  constructor
  · rintro ⟨after, ran⟩
    obtain ⟨-, storedFunctions, storedLoops, stored⟩ := processAndStore_eq_ok.mp ran
    rw [holds.range] at storedFunctions storedLoops stored
    have eachLoop := loops.mp ⟨_, storedLoops⟩
    refine ⟨functions.mp ⟨_, storedFunctions⟩, fun head range isAdded => ?_, ?_, ?_⟩
    · obtain ⟨ranges, member⟩ := holds.loops.exists_mem less_strictTotal isAdded
      exact (eachLoop _ member).1
    · exact loopsCountable.mp fun entry member => (eachLoop entry member).2
    · exact statementsCountable.mp (statements.mp ⟨_, stored⟩)
  · rintro ⟨fit, storable⟩
    obtain ⟨functionTables, storedFunctions⟩ := functions.mpr fit
    have heads : ∀ entry ∈ table.dmLoops, entry.1.toNat - dmRange.dmBegin.toNat < 2 ^ 63 ∧
        dmRange.dmBegin.toNat - entry.1.toNat ≤ 2 ^ 63 := by
      rintro ⟨head, ranges⟩ member
      cases ranges with
      | nil => exact absurd rfl (holds.loops.filled _ member)
      | cons range rest =>
        exact storable.heads head range
          ((holds.loops.mem_iff less_strictTotal member range).mp (by simp))
    obtain ⟨loopTables, storedLoops⟩ := loops.mpr fun entry member =>
      ⟨heads entry member, loopsCountable.mpr storable.loops entry member⟩
    obtain ⟨⟨files, statementTables⟩, stored⟩ :=
      statements.mpr (statementsCountable.mpr storable.statements)
    exact ⟨⟨tables.addressSpaces, functionTables, loopTables, files, statementTables⟩,
      processAndStore_eq_ok.mpr ⟨rfl, by rw [holds.range]; exact storedFunctions,
        by rw [holds.range]; exact storedLoops, by rw [holds.range]; exact stored⟩⟩

theorem processAndStore_returns_iff (holds : Holds dmRange calls table)
    (keeps : KeepsFirst dmRange calls table) (returns : ∀ call ∈ calls, call.Returns dmRange) :
    (∃ after, table.processAndStore linkedObject tables = .ok after) ↔ Storable dmRange calls := by
  rw [processAndStore_returns_iff_fits holds returns]
  constructor
  · rintro ⟨fit, heads, loops, statements⟩
    exact ⟨returns, fun entry member => fit entry ((keeps.exact entry).mpr member), heads, loops, statements⟩
  · intro storable
    exact ⟨fun entry member => storable.functions entry ((keeps.exact entry).mp member),
      storable.heads, storable.loops, storable.statements⟩

end

end SymbolTable

end OpenSpeedShop
