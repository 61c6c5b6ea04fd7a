import OpenSpeedShop.Library.LinearProbing
import OpenSpeedShop.Library.Word64
import OpenSpeedShop.Runtime.PCDataCore

/-!
The hash table of a sample buffer is a table with linear probing: the bucket of
an address holds its last entry, the only one whose count is not exhausted.
-/

namespace OpenSpeedShop

open LinearProbing
open Option (bind_some bind_eq_bind)

theorem store?_eq_some {Value : Type} {size : Nat} {values : Vector Value size} {index : Nat}
    {value : Value} (inside : index < size) :
    store? values index value = some (values.set index value inside) := dif_pos inside

theorem toList_take_set {Value : Type} {size place : Nat} {values : Vector Value size}
    {value : Value} (room : place < size) :
    (values.set place value room).toList.take (place + 1) = values.toList.take place ++ [value] := by
  rw [Vector.toList_set, List.take_succ_eq_append_getElem (by simpa using room),
    List.take_set_of_le (Nat.le_refl _)]
  simp

namespace PCData

variable {offline : Bool}

def home (offline : Bool) (pc : UInt64) : Nat := (pc >>> 4).toNat % pcHashTableSize offline

def table (buffer : PCData offline) (bucket : Nat) : Option UInt64 := do
  let place ← buffer.hashTable[bucket]?
  if place > 0 then buffer.pc[(place - 1).toNat]? else none

def entries (buffer : PCData offline) : List (UInt64 × UInt8) :=
  (buffer.pc.toList.zip buffer.count.toList).take buffer.length.toNat

def recorded (entries : List (UInt64 × UInt8)) (pc : UInt64) : Nat :=
  ((entries.filter fun entry => entry.1 = pc).map fun entry => entry.2.toNat).sum

structure Valid (buffer : PCData offline) : Prop where
  fits : buffer.length.toNat ≤ pcBufferSize offline
  linked : ∀ (bucket : Nat) (place : UInt32), buffer.hashTable[bucket]? = some place →
    place.toNat ≤ buffer.length.toNat
  placed : Placed (pcHashTableSize offline) (home offline) buffer.table
  current : ∀ (entry : Nat) (pc : UInt64) (count : UInt8), buffer.entries[entry]? = some (pc, count) → count < 255 →
    ∃ (bucket : Nat) (place : UInt32), buffer.hashTable[bucket]? = some place ∧ place.toNat = entry + 1

def pcs (buffer : PCData offline) : List UInt64 := buffer.entries.map Prod.fst

structure Spans (buffer : PCData offline) : Prop where
  bounds : ∀ pc ∈ buffer.pcs, buffer.addrBegin ≤ pc ∧ pc ≤ buffer.addrEnd
  attained : buffer.pcs = [] ∧ buffer.addrBegin = -1 ∧ buffer.addrEnd = 0 ∨
    buffer.addrBegin ∈ buffer.pcs ∧ buffer.addrEnd ∈ buffer.pcs

theorem pcBufferSize_pos : 0 < pcBufferSize offline := by
  cases offline <;> decide

theorem pcBufferSize_lt : pcBufferSize offline < 2 ^ 16 := by
  cases offline <;> decide

theorem pcBufferSize_lt_pcHashTableSize : pcBufferSize offline < pcHashTableSize offline := by
  cases offline <;> decide

theorem home_lt (pc : UInt64) : home offline pc < pcHashTableSize offline :=
  Nat.mod_lt _ (Nat.zero_lt_of_lt pcBufferSize_lt_pcHashTableSize)

variable {buffer : PCData offline} {pc : UInt64} {count : UInt8}

variable {entry : Nat}

theorem getElem?_entries : buffer.entries[entry]? = some (pc, count) ↔
      entry < buffer.length.toNat ∧ buffer.pc[entry]? = some pc ∧ buffer.count[entry]? = some count := by
  rw [entries, List.getElem?_take]
  split
  · rename_i used
    simp [List.getElem?_zip_eq_some, used]
  · rename_i unused
    simp [unused]

theorem length_entries (fits : buffer.length.toNat ≤ pcBufferSize offline) :
    buffer.entries.length = buffer.length.toNat := by
  simp [entries, fits]

variable {bucket : Nat}

section

variable (valid : buffer.Valid)
include valid

theorem Valid.leads {place : UInt32} (held : buffer.hashTable[bucket]? = some place) (used : place > 0) :
    (place - 1).toNat = place.toNat - 1 ∧ (place - 1).toNat < buffer.length.toNat ∧
      ∃ pc, buffer.pc[(place - 1).toNat]? = some pc ∧ buffer.table bucket = some pc := by
  have linked := valid.linked bucket place held
  have fits := valid.fits
  have positive : 0 < place.toNat := by
    simpa [UInt32.lt_iff_toNat_lt] using used
  have index : (place - 1).toNat = place.toNat - 1 :=
    UInt32.toNat_sub_of_le _ _ (UInt32.le_iff_toNat_le.mpr positive)
  have inside : (place - 1).toNat < pcBufferSize offline := by omega
  refine ⟨index, by omega, buffer.pc[(place - 1).toNat], ?_, ?_⟩
  · exact Vector.getElem?_eq_getElem inside
  · simp [table, held, used]

theorem table_eq_none {place : UInt32} (held : buffer.hashTable[bucket]? = some place) :
    buffer.table bucket = none ↔ place = 0 := by
  by_cases used : place > 0
  · obtain ⟨_, _, pc, _, leads⟩ := valid.leads held used
    have nonzero : place ≠ 0 := by
      rintro rfl
      cases used
    simp [leads, nonzero]
  · have zero : place = 0 := by simpa using used
    simp [table, held, zero]

theorem probe_eq_scan (pc : UInt64) :
    ∀ fuel bucket, bucket < pcHashTableSize offline → buffer.probe pc fuel bucket =
      scan (pcHashTableSize offline) (stopsAt buffer.table pc) fuel bucket := by
  intro fuel
  induction fuel with
  | zero => exact fun _ _ => rfl
  | succ fuel ih =>
    intro bucket inside
    have held : buffer.hashTable[bucket]? = some buffer.hashTable[bucket] :=
      Vector.getElem?_eq_getElem inside
    have next : (bucket + 1) % pcHashTableSize offline < pcHashTableSize offline :=
      Nat.mod_lt _ (by omega)
    rw [probe, scan, held, bind_eq_bind, bind_some]
    by_cases used : buffer.hashTable[bucket] > 0
    · obtain ⟨_, _, other, found, leads⟩ := valid.leads held used
      rw [if_pos used, found, bind_eq_bind, bind_some, ih _ next]
      by_cases same : other = pc
      · simp [stopsAt, leads, same]
      · simp [stopsAt, leads, same]
    · have free : buffer.table bucket = none :=
        (table_eq_none valid held).mpr (by simpa using used)
      rw [if_neg used]
      simp [stopsAt, free]

theorem mem_pcs_of_table (holds : buffer.table bucket = some pc) : pc ∈ buffer.pcs := by
  obtain ⟨place, held, leads⟩ := Option.bind_eq_some_iff.mp holds
  by_cases used : place > 0
  · rw [if_pos used] at leads
    obtain ⟨_, below, _⟩ := valid.leads held used
    have inside := Nat.lt_of_lt_of_le below valid.fits
    have present : buffer.entries[(place - 1).toNat]? = some (pc, buffer.count[(place - 1).toNat]) :=
      getElem?_entries.mpr ⟨below, leads, Vector.getElem?_eq_getElem inside⟩
    exact List.mem_map.mpr ⟨_, List.mem_of_getElem? present, rfl⟩
  · rw [if_neg used] at leads
    cases leads

theorem exists_free : ∃ bucket < pcHashTableSize offline, buffer.table bucket = none := by
  have known : ∀ bucket pc, buffer.table bucket = some pc → pc ∈ buffer.pcs.toFinset :=
    fun bucket pc holds => List.mem_toFinset.mpr (mem_pcs_of_table valid holds)
  have few : buffer.pcs.toFinset.card ≤ pcBufferSize offline := by
    refine (List.toFinset_card_le _).trans ?_
    rw [pcs, List.length_map, length_entries valid.fits]
    exact valid.fits
  exact valid.placed.exists_free known (Nat.lt_of_le_of_lt few pcBufferSize_lt_pcHashTableSize)

theorem probe_total (pc : UInt64) :
    ∃ bucket, buffer.probe pc (pcHashTableSize offline) (home offline pc) = some bucket ∧
      bucket < pcHashTableSize offline ∧
      find (pcHashTableSize offline) (home offline) buffer.table pc = some bucket := by
  obtain ⟨free, freeInside, isFree⟩ := exists_free valid
  obtain ⟨bucket, found⟩ := find_total home_lt freeInside isFree pc
  exact ⟨bucket, (probe_eq_scan valid pc _ _ (home_lt pc)).trans found, find_lt home_lt found, found⟩

theorem existingEntry_eq (inside : bucket < pcHashTableSize offline)
    (found : find (pcHashTableSize offline) (home offline) buffer.table pc = some bucket) :
    (∃ entry count, buffer.existingEntry pc bucket = some (some entry) ∧
      buffer.entries[entry]? = some (pc, count) ∧ count < 255) ∨
    buffer.existingEntry pc bucket = some none ∧ ∀ place, buffer.hashTable[bucket]? = some place →
      ∀ entry count, place.toNat = entry + 1 → buffer.entries[entry]? = some (pc, count) → ¬ count < 255 := by
  have held : buffer.hashTable[bucket]? = some buffer.hashTable[bucket] :=
    Vector.getElem?_eq_getElem inside
  by_cases used : buffer.hashTable[bucket] > 0
  · obtain ⟨index, below, other, foundOther, leads⟩ := valid.leads held used
    have fits := valid.fits
    have counted : buffer.count[(buffer.hashTable[bucket] - 1).toNat]? =
        some buffer.count[(buffer.hashTable[bucket] - 1).toNat] :=
      Vector.getElem?_eq_getElem (by omega)
    obtain rfl : other = pc := by
      rcases find_stops found with free | own
      · rw [leads] at free
        cases free
      · exact Option.some.inj (leads.symm.trans own)
    by_cases room : buffer.count[(buffer.hashTable[bucket] - 1).toNat] < 255
    · left
      refine ⟨_, _, ?_, getElem?_entries.mpr ⟨below, foundOther, counted⟩, room⟩
      simp [existingEntry, held, used, foundOther, counted, room]
    · right
      refine ⟨by simp [existingEntry, held, used, foundOther, counted, room], ?_⟩
      intro place same entry count number present
      obtain rfl := Option.some.inj (held.symm.trans same)
      obtain ⟨_, _, countedHere⟩ := getElem?_entries.mp present
      have here : entry = (buffer.hashTable[bucket] - 1).toNat := by omega
      rw [here, counted] at countedHere
      exact Option.some.inj countedHere ▸ room
  · right
    refine ⟨by simp [existingEntry, held, used], ?_⟩
    intro place same entry count number
    obtain rfl := Option.some.inj (held.symm.trans same)
    have zero : buffer.hashTable[bucket] = 0 := by simpa using used
    rw [zero] at number
    cases number

end

theorem zip_set {First Second : Type} (left : First) (right : Second) :
    ∀ (first : List First) (second : List Second) (index : Nat),
    (first.set index left).zip (second.set index right) = (first.zip second).set index (left, right) := by
  intro first
  induction first with
  | nil => simp
  | cons value rest ih =>
    intro second index
    cases second with
    | nil => simp
    | cons other others =>
      cases index with
      | zero => rfl
      | succ index => simp [ih]

theorem incrementCount_eq (present : buffer.entries[entry]? = some (pc, count)) :
    ∃ after, buffer.incrementCount entry = some after ∧
      after.entries = buffer.entries.set entry (pc, count + 1) ∧ after.pc = buffer.pc ∧
      after.length = buffer.length ∧ after.hashTable = buffer.hashTable ∧
      after.addrBegin = buffer.addrBegin ∧ after.addrEnd = buffer.addrEnd := by
  obtain ⟨used, heldPc, heldCount⟩ := getElem?_entries.mp present
  obtain ⟨inside, _⟩ := Vector.getElem?_eq_some_iff.mp heldCount
  obtain ⟨insidePc, same⟩ := Vector.getElem?_eq_some_iff.mp heldPc
  have kept : buffer.pc.toList = buffer.pc.toList.set entry pc := by
    rw [← same, ← Vector.getElem_toList (by simpa using inside), List.set_getElem_self]
  refine ⟨{ buffer with count := buffer.count.set entry (count + 1) inside }, ?_, ?_, rfl, rfl,
    rfl, rfl, rfl⟩
  · simp [incrementCount, heldCount, store?_eq_some inside]
  · simp only [entries, Vector.toList_set]
    rw [kept, zip_set, List.take_set, ← kept]

structure Added (before after : PCData offline) (pc : UInt64) (bucket : Nat) : Prop where
  room : before.length.toNat < pcBufferSize offline
  inside : bucket < pcHashTableSize offline
  content : after.entries = before.entries ++ [(pc, 1)]
  newPc : after.pc = before.pc.set before.length.toNat pc room
  newLength : after.length.toNat = before.length.toNat + 1
  newTable : after.hashTable = before.hashTable.set bucket (UInt32.ofNat before.length.toNat + 1) inside

theorem addEntry_eq (room : buffer.length.toNat < pcBufferSize offline)
    (inside : bucket < pcHashTableSize offline) :
    ∃ after, buffer.addEntry pc bucket = some after ∧ Added buffer after pc bucket ∧
      after.addrBegin = (if pc < buffer.addrBegin then pc else buffer.addrBegin) ∧
      after.addrEnd = (if pc > buffer.addrEnd then pc else buffer.addrEnd) := by
  have bound := @pcBufferSize_lt offline
  have longer : (buffer.length + 1).toNat = buffer.length.toNat + 1 := by
    rw [UInt16.toNat_add]
    exact Nat.mod_eq_of_lt (by simpa using (by omega : buffer.length.toNat + 1 < 2 ^ 16))
  have added : buffer.addEntry pc bucket = some
      { buffer with
        pc := buffer.pc.set buffer.length.toNat pc room
        count := buffer.count.set buffer.length.toNat 1 room
        length := buffer.length + 1
        addrBegin := if pc < buffer.addrBegin then pc else buffer.addrBegin
        addrEnd := if pc > buffer.addrEnd then pc else buffer.addrEnd
        hashTable := buffer.hashTable.set bucket (UInt32.ofNat buffer.length.toNat + 1) inside } := by
    simp only [addEntry, store?_eq_some room, store?_eq_some inside]
    rfl
  refine ⟨_, added, ⟨room, inside, ?_, rfl, longer, rfl⟩, rfl, rfl⟩
  have whole : (buffer.pc.toList.zip buffer.count.toList).length = pcBufferSize offline := by simp
  simp only [entries, Vector.toList_set, longer, zip_set]
  rw [List.take_succ_eq_append_getElem (by simpa using room), List.take_set_of_le (Nat.le_refl _)]
  simp

variable {before after : PCData offline}

theorem Valid.increment (valid : before.Valid) (present : before.entries[entry]? = some (pc, count))
    (below : count < 255) (content : after.entries = before.entries.set entry (pc, count + 1))
    (samePc : after.pc = before.pc) (sameLength : after.length = before.length)
    (sameTable : after.hashTable = before.hashTable) : after.Valid where
  fits := sameLength ▸ valid.fits
  linked := by
    rw [sameLength, sameTable]
    exact valid.linked
  placed := by
    have same : after.table = before.table := by
      funext bucket
      rw [table, table, sameTable, samePc]
    rw [same]
    exact valid.placed
  current := by
    intro place other number held small
    rw [content] at held
    rw [sameTable]
    by_cases here : place = entry
    · exact here ▸ valid.current entry pc count present below
    · rw [List.getElem?_set_ne (Ne.symm here)] at held
      exact valid.current place other number held small

section

variable {before after : PCData offline} {pc : UInt64} {bucket : Nat} (added : Added before after pc bucket)

omit added in
theorem toNat_link (buffer : PCData offline) :
    (UInt32.ofNat buffer.length.toNat + 1).toNat = buffer.length.toNat + 1 := by
  have bound := buffer.length.toNat_lt
  rw [UInt32.toNat_add, UInt32.toNat_ofNat']
  simp only [UInt32.reduceToNat]
  omega

include added

theorem Added.here : after.hashTable[bucket]? = some (UInt32.ofNat before.length.toNat + 1) := by
  rw [added.newTable]
  simp [added.inside]

theorem Added.elsewhere {other : Nat} (apart : other ≠ bucket) :
    after.hashTable[other]? = before.hashTable[other]? := by
  rw [added.newTable, Vector.getElem?_set_ne _ (Ne.symm apart)]

theorem Added.oldPc {entry : Nat} (old : entry < before.length.toNat) :
    after.pc[entry]? = before.pc[entry]? := by
  rw [added.newPc, Vector.getElem?_set_ne _ (by omega)]

theorem Added.table (valid : before.Valid) : after.table = Function.update before.table bucket (some pc) := by
  have number := toNat_link before
  funext other
  by_cases same : other = bucket
  · subst same
    have used : UInt32.ofNat before.length.toNat + 1 > 0 := by
      rw [gt_iff_lt, UInt32.lt_iff_toNat_lt, number]
      simp
    have index : (UInt32.ofNat before.length.toNat + 1 - 1).toNat = before.length.toNat := by
      rw [UInt32.toNat_sub_of_le _ _ (by rw [UInt32.le_iff_toNat_le, number]; simp), number]
      simp
    have newest : after.pc[before.length.toNat]? = some pc := by
      rw [added.newPc]
      simp [added.room]
    rw [Function.update_self, PCData.table, added.here, bind_eq_bind, bind_some,
      if_pos used, index, newest]
  · rw [Function.update_of_ne same, PCData.table, PCData.table, added.elsewhere same]
    cases held : before.hashTable[other]? with
    | none => rfl
    | some place =>
      by_cases used : place > 0
      · have below := (valid.leads held used).2.1
        simp [used, added.oldPc below]
      · simp [used]

section

variable (valid : before.Valid)
  (found : find (pcHashTableSize offline) (home offline) before.table pc = some bucket)
  (exhausted : ∀ place, before.hashTable[bucket]? = some place → ∀ entry count, place.toNat = entry + 1 → before.entries[entry]? = some (pc, count) → ¬ count < 255)
include valid found exhausted

theorem Added.kept {entry place : Nat} {other : UInt64} {count : UInt8} {link : UInt32}
    (held : before.entries[entry]? = some (other, count)) (small : count < 255)
    (bucketHolds : before.hashTable[place]? = some link) (same : link.toNat = entry + 1) :
    place ≠ bucket := by
  rintro rfl
  obtain ⟨used, heldPc, _⟩ := getElem?_entries.mp held
  have positive : link > 0 := by
    rw [gt_iff_lt, UInt32.lt_iff_toNat_lt, same]
    simp
  obtain ⟨index, _, key, leadsTo, leads⟩ := valid.leads bucketHolds positive
  have sameEntry : (link - 1).toNat = entry := by omega
  rw [sameEntry, heldPc] at leadsTo
  obtain rfl := Option.some.inj leadsTo
  rcases find_stops found with free | own
  · rw [leads] at free
    cases free
  · obtain rfl := Option.some.inj (leads.symm.trans own)
    exact absurd small (exhausted link bucketHolds entry count same held)

theorem Added.valid_add : after.Valid := by
  have longer := added.newLength
  have room := added.room
  refine ⟨by omega, ?_, ?_, ?_⟩
  · intro other place held
    by_cases same : other = bucket
    · subst same
      rw [added.here] at held
      obtain rfl := Option.some.inj held
      have number := toNat_link before
      omega
    · rw [added.elsewhere same] at held
      have linked := valid.linked other place held
      omega
  · rw [added.table valid]
    exact valid.placed.update found
  · intro entry other count held small
    rw [added.content] at held
    by_cases old : entry < before.entries.length
    · rw [List.getElem?_append_left old] at held
      obtain ⟨place, link, bucketHolds, same⟩ := valid.current entry other count held small
      refine ⟨place, link, ?_, same⟩
      rwa [added.elsewhere (added.kept valid found exhausted held small bucketHolds same)]
    · have total := length_entries valid.fits
      have last : entry = before.entries.length := by
        have inRange := (List.getElem?_eq_some_iff.mp held).1
        simp only [List.length_append, List.length_singleton] at inRange
        omega
      exact ⟨bucket, _, added.here, by rw [toNat_link before, last, total]⟩

end

end

theorem Spans.increment (spans : before.Spans) (present : before.entries[entry]? = some (pc, count))
    (content : after.entries = before.entries.set entry (pc, count + 1))
    (sameBegin : after.addrBegin = before.addrBegin) (sameEnd : after.addrEnd = before.addrEnd) :
    after.Spans := by
  obtain ⟨inside, held⟩ := List.getElem?_eq_some_iff.mp present
  have same : after.pcs = before.pcs := by
    have kept : (before.entries.map Prod.fst).set entry pc = before.entries.map Prod.fst := by
      have value : (before.entries.map Prod.fst)[entry]? = some pc := by simp [present]
      obtain ⟨insideMap, here⟩ := List.getElem?_eq_some_iff.mp value
      rw [← here, List.set_getElem_self]
    rw [pcs, content, List.map_set, kept, pcs]
  constructor
  · rw [same, sameBegin, sameEnd]
    exact spans.bounds
  · rw [same, sameBegin, sameEnd]
    exact spans.attained

theorem Spans.add (spans : before.Spans) (content : after.entries = before.entries ++ [(pc, count)])
    (newBegin : after.addrBegin = if pc < before.addrBegin then pc else before.addrBegin)
    (newEnd : after.addrEnd = if pc > before.addrEnd then pc else before.addrEnd) : after.Spans := by
  have longer : after.pcs = before.pcs ++ [pc] := by simp [pcs, content]
  have lower : after.addrBegin ≤ before.addrBegin ∧ after.addrBegin ≤ pc := by
    rw [newBegin]
    split
    · rename_i below
      exact ⟨below.le, le_rfl⟩
    · rename_i above
      exact ⟨le_rfl, not_lt.mp above⟩
  have upper : before.addrEnd ≤ after.addrEnd ∧ pc ≤ after.addrEnd := by
    rw [newEnd]
    split
    · rename_i above
      exact ⟨above.le, le_rfl⟩
    · rename_i below
      exact ⟨le_rfl, not_lt.mp below⟩
  constructor
  · intro other member
    rw [longer, List.mem_append, List.mem_singleton] at member
    rcases member with old | rfl
    · exact ⟨lower.1.trans (spans.bounds other old).1, (spans.bounds other old).2.trans upper.1⟩
    · exact ⟨lower.2, upper.2⟩
  · right
    rw [longer]
    rcases spans.attained with ⟨empty, begins, ends⟩ | ⟨lowest, highest⟩
    · have atBegin : after.addrBegin = pc := by
        refine le_antisymm lower.2 ?_
        rw [newBegin, begins]
        split
        · exact le_rfl
        · exact UInt64.le_iff_toNat_le.mpr (Nat.le_of_lt_succ (UInt64.toNat_lt pc))
      have atEnd : after.addrEnd = pc := by
        refine le_antisymm ?_ upper.2
        rw [newEnd, ends]
        split
        · exact le_rfl
        · exact UInt64.le_iff_toNat_le.mpr (Nat.zero_le _)
      simp [atBegin, atEnd]
    · constructor
      · rw [newBegin]
        split <;> simp [lowest]
      · rw [newEnd]
        split <;> simp [highest]

inductive Counted (pc : UInt64) (before after : List (UInt64 × UInt8)) : Prop
  | incremented (entry : Nat) (count : UInt8) (present : before[entry]? = some (pc, count))
      (below : count < 255) (after_eq : after = before.set entry (pc, count + 1))
  | added (after_eq : after = before ++ [(pc, 1)])

theorem updatePCData_total {before : PCData offline} (valid : before.Valid) (spans : before.Spans)
    (room : before.length.toNat < pcBufferSize offline) (pc : UInt64) :
    ∃ full after, updatePCData pc before = some (full, after) ∧ after.Valid ∧ after.Spans ∧
      full = decide (after.length.toNat = pcBufferSize offline) ∧ 0 < after.length.toNat ∧
      Counted pc before.entries after.entries := by
  obtain ⟨bucket, probed, inside, found⟩ := probe_total valid pc
  rw [home] at probed
  rcases existingEntry_eq valid inside found with
    ⟨entry, count, existing, present, below⟩ | ⟨existing, exhausted⟩
  · obtain ⟨after, incremented, content, samePc, sameLength, sameTable, sameBegin, sameEnd⟩ :=
      incrementCount_eq present
    have used := (getElem?_entries.mp present).1
    refine ⟨false, after, ?_,
      valid.increment present below content samePc sameLength sameTable, ?_, ?_, ?_,
      .incremented entry count present below content⟩
    · simp only [updatePCData, probed, existing, incremented, bind_eq_bind, bind_some]
      rfl
    · exact spans.increment present content sameBegin sameEnd
    · rw [sameLength]
      exact (decide_eq_false (by omega)).symm
    · rw [sameLength]
      omega
  · obtain ⟨after, ran, added, newBegin, newEnd⟩ := @addEntry_eq _ _ pc _ room inside
    have longer := added.newLength
    refine ⟨_, after, ?_, added.valid_add valid found exhausted, ?_, rfl, by omega,
      .added added.content⟩
    · simp only [updatePCData, probed, existing, ran, bind_eq_bind, bind_some]
      rfl
    · exact spans.add added.content newBegin newEnd

theorem recorded_append (first second : List (UInt64 × UInt8)) (pc : UInt64) :
    recorded (first ++ second) pc = recorded first pc + recorded second pc := by
  simp [recorded]

theorem recorded_cons (entry : UInt64 × UInt8) (rest : List (UInt64 × UInt8)) (pc : UInt64) :
    recorded (entry :: rest) pc = (if entry.1 = pc then entry.2.toNat else 0) + recorded rest pc := by
  by_cases same : entry.1 = pc <;> simp [recorded, same]

theorem Counted.recorded {before after : List (UInt64 × UInt8)}
    (counted : Counted pc before after) (other : UInt64) :
    recorded after other = recorded before other + if pc = other then 1 else 0 := by
  cases counted with
  | added after_eq =>
    rw [after_eq, recorded_append, recorded_cons]
    rfl
  | incremented entry count present below after_eq =>
    have higher : (count + 1).toNat = count.toNat + 1 := by
      have bound : count.toNat < 255 := below
      rw [UInt8.toNat_add]
      exact Nat.mod_eq_of_lt (by simpa using (by omega : count.toNat + 1 < 256))
    subst after_eq
    induction before generalizing entry with
    | nil => simp at present
    | cons first rest ih =>
      cases entry with
      | zero =>
        obtain rfl : first = (pc, count) := by simpa using present
        rw [List.set_cons_zero, recorded_cons, recorded_cons]
        dsimp only
        split <;> omega
      | succ entry =>
        have later := ih entry (by simpa using present)
        rw [List.set_cons_succ, recorded_cons, recorded_cons, later]
        omega

theorem Valid.unexhausted_unique (valid : buffer.Valid) {first second : Nat} {firstCount secondCount : UInt8}
    (atFirst : buffer.entries[first]? = some (pc, firstCount)) (firstBelow : firstCount < 255)
    (atSecond : buffer.entries[second]? = some (pc, secondCount)) (secondBelow : secondCount < 255) :
    first = second := by
  have leadsTo : ∀ {entry : Nat} {count : UInt8}, buffer.entries[entry]? = some (pc, count) →
      count < 255 → ∃ bucket place, buffer.hashTable[bucket]? = some place ∧
        place.toNat = entry + 1 ∧ buffer.table bucket = some pc := by
    intro entry count held below
    obtain ⟨bucket, place, bucketHolds, number⟩ := valid.current entry pc count held below
    have positive : place > 0 := by
      rw [gt_iff_lt, UInt32.lt_iff_toNat_lt, number]
      simp
    obtain ⟨index, _, key, found, leads⟩ := valid.leads bucketHolds positive
    have sameEntry : (place - 1).toNat = entry := by omega
    rw [sameEntry, (getElem?_entries.mp held).2.1] at found
    exact ⟨bucket, place, bucketHolds, number, by rw [leads, ← found]⟩
  obtain ⟨bucket, place, holds, number, leads⟩ := leadsTo atFirst firstBelow
  obtain ⟨otherBucket, otherPlace, otherHolds, otherNumber, otherLeads⟩ :=
    leadsTo atSecond secondBelow
  obtain rfl := valid.placed.eq_of_same leads otherLeads
  obtain rfl := Option.some.inj (holds.symm.trans otherHolds)
  omega

theorem entries_reset (buffer : PCData offline) : buffer.reset.entries = [] := rfl

theorem reset_valid (buffer : PCData offline) : buffer.reset.Valid where
  fits := Nat.zero_le _
  linked := by
    intro bucket place held
    rw [reset, Vector.getElem?_replicate] at held
    split at held
    · obtain rfl := Option.some.inj held
      rfl
    · cases held
  placed := by
    have empty : buffer.reset.table = fun _ => none := by
      funext bucket
      simp only [table, reset, Vector.getElem?_replicate]
      split <;> rfl
    rw [empty]
    exact placed_empty
  current := by
    intro entry pc count held
    rw [entries_reset] at held
    cases held

theorem reset_spans (buffer : PCData offline) : buffer.reset.Spans where
  bounds pc member := by
    rw [pcs, entries_reset] at member
    cases member
  attained := .inl ⟨rfl, rfl, rfl⟩

end PCData

end OpenSpeedShop
