import OpenSpeedShop.Library.LinkedEntries
import OpenSpeedShop.Runtime.PCData
import Mathlib.Data.Int.ModEq

/-!
The buffer in which the hardware counter sampling runtime gathers program counter (PC)
samples together with the values of six event counters.
-/

namespace OpenSpeedShop

def hwcPCBufferSize (offline : Bool) : Nat := 200 * blobSizeFactor offline

def hwcPCHashTableSize (offline : Bool) : Nat :=
  hwcPCBufferSize offline + hwcPCBufferSize offline / 4

abbrev EvCounts := Vector UInt64 6

/-- The `long long evcounts[6]` of a sample. -/
abbrev EValues := Vector Int64 6

structure HWCPCData (offline : Bool) where
  addrBegin : UInt64
  addrEnd : UInt64
  length : UInt16
  pc : Vector UInt64 (hwcPCBufferSize offline)
  count : Vector UInt8 (hwcPCBufferSize offline)
  hwccounts : Vector EvCounts (hwcPCBufferSize offline)
  hashTable : Vector UInt32 (hwcPCHashTableSize offline)

namespace HWCPCData

variable {offline : Bool}

def probe (buffer : HWCPCData offline) (pc : UInt64) : (fuel bucket : Nat) → Option Nat
  | 0, _ => none
  | fuel + 1, bucket => do
      let place ← buffer.hashTable[bucket]?
      if place > 0 then
        let other ← buffer.pc[(place - 1).toNat]?
        if other != pc then probe buffer pc fuel ((bucket + 1) % hwcPCHashTableSize offline)
        else return bucket
      else return bucket

def existingEntry (buffer : HWCPCData offline) (pc : UInt64) (bucket : Nat) : Option (Option Nat) := do
  let place ← buffer.hashTable[bucket]?
  if place > 0 then
    let entry := (place - 1).toNat
    let other ← buffer.pc[entry]?
    let count ← buffer.count[entry]?
    return if other = pc ∧ count < 255 then some entry else none
  else return none

/-- `hwccounts[i] += evcounts[i]`, each value converted to the type of the counter. -/
def addCounts (counts : EvCounts) (evcounts : EValues) : EvCounts :=
  Vector.zipWith (fun count value => count + value.toUInt64) counts evcounts

def incrementCount (buffer : HWCPCData offline) (entry : Nat) (evcounts : EValues) :
    Option (HWCPCData offline) := do
  let count ← buffer.count[entry]?
  let counts ← store? buffer.count entry (count + 1)
  let row ← buffer.hwccounts[entry]?
  let rows ← store? buffer.hwccounts entry (addCounts row evcounts)
  return { buffer with count := counts, hwccounts := rows }

def addEntry (buffer : HWCPCData offline) (pc : UInt64) (evcounts : EValues) (bucket : Nat) :
    Option (HWCPCData offline) := do
  let entry := buffer.length.toNat
  let pcs ← store? buffer.pc entry pc
  let counts ← store? buffer.count entry 1
  let rows ← store? buffer.hwccounts entry (evcounts.map Int64.toUInt64)
  let hashTable ← store? buffer.hashTable bucket (UInt32.ofNat entry + 1)
  return { buffer with
    pc := pcs
    count := counts
    hwccounts := rows
    length := buffer.length + 1
    addrBegin := if pc < buffer.addrBegin then pc else buffer.addrBegin
    addrEnd := if pc > buffer.addrEnd then pc else buffer.addrEnd
    hashTable := hashTable }

def updateHWCPCData (pc : UInt64) (buffer : HWCPCData offline) (evcounts : EValues) :
    Option (Bool × HWCPCData offline) := do
  let bucket ← buffer.probe pc (hwcPCHashTableSize offline) ((pc >>> 4).toNat % hwcPCHashTableSize offline)
  match ← buffer.existingEntry pc bucket with
  | some entry => do
      let buffer ← buffer.incrementCount entry evcounts
      return (false, buffer)
  | none => do
      let buffer ← buffer.addEntry pc evcounts bucket
      return (buffer.length.toNat = hwcPCBufferSize offline, buffer)

def reset (buffer : HWCPCData offline) : HWCPCData offline :=
  { buffer with
    addrBegin := ~~~0
    addrEnd := 0
    length := 0
    hashTable := Vector.replicate (hwcPCHashTableSize offline) 0
    hwccounts := Vector.replicate (hwcPCBufferSize offline) (Vector.replicate 6 0) }

end HWCPCData

/-!
A sample is recorded in one row of the buffer: its address, its count and its event
counters are moved together.
-/

open LinearProbing

structure HWCRow where
  pc : UInt64
  count : UInt8
  events : EvCounts

def hwcRows (pc : List UInt64) (count : List UInt8) (events : List EvCounts) : List HWCRow :=
  (pc.zip (count.zip events)).map fun row => ⟨row.1, row.2.1, row.2.2⟩

variable {events : List EvCounts} {count : List UInt8} {pc : List UInt64}

theorem getElem?_hwcRows {entry : Nat} {row : HWCRow} : (hwcRows pc count events)[entry]? = some row ↔
      pc[entry]? = some row.pc ∧ count[entry]? = some row.count ∧ events[entry]? = some row.events := by
  rw [hwcRows, List.getElem?_map, Option.map_eq_some_iff]
  constructor
  · rintro ⟨⟨key, number, values⟩, held, rfl⟩
    rw [List.getElem?_zip_eq_some, List.getElem?_zip_eq_some] at held
    exact ⟨held.1, held.2.1, held.2.2⟩
  · rintro ⟨heldPc, heldCount, heldEvents⟩
    refine ⟨(row.pc, row.count, row.events), ?_, rfl⟩
    rw [List.getElem?_zip_eq_some, List.getElem?_zip_eq_some]
    exact ⟨heldPc, heldCount, heldEvents⟩

theorem hwcRows_set {entry : Nat}
    {row : HWCRow} (present : (hwcRows pc count events)[entry]? = some row) (number : UInt8)
    (values : EvCounts) : hwcRows pc (count.set entry number) (events.set entry values) =
      (hwcRows pc count events).set entry ⟨row.pc, number, values⟩ := by
  obtain ⟨heldPc, heldCount, heldEvents⟩ := getElem?_hwcRows.mp present
  have kept : pc.set entry row.pc = pc := by
    obtain ⟨inside, here⟩ := List.getElem?_eq_some_iff.mp heldPc
    rw [← here, List.set_getElem_self]
  calc hwcRows pc (count.set entry number) (events.set entry values)
      = hwcRows (pc.set entry row.pc) (count.set entry number) (events.set entry values) := by
        rw [kept]
    _ = (hwcRows pc count events).set entry ⟨row.pc, number, values⟩ := by
        rw [hwcRows, hwcRows, PCData.zip_set, PCData.zip_set, List.map_set]

theorem hwcRows_append
    (counts : count.length = pc.length) (aligned : events.length = pc.length) (row : HWCRow) :
    hwcRows (pc ++ [row.pc]) (count ++ [row.count]) (events ++ [row.events]) =
      hwcRows pc count events ++ [row] := by
  rw [hwcRows, hwcRows, List.zip_append (by omega), List.zip_append (by simp; omega)]
  simp

namespace HWCPCData

variable {offline : Bool}

def home (offline : Bool) (pc : UInt64) : Nat := (pc >>> 4).toNat % hwcPCHashTableSize offline

def pcs (buffer : HWCPCData offline) : List UInt64 := buffer.pc.toList.take buffer.length.toNat

def rows (buffer : HWCPCData offline) : List HWCRow :=
  hwcRows buffer.pcs (buffer.count.toList.take buffer.length.toNat)
    (buffer.hwccounts.toList.take buffer.length.toNat)

def links (buffer : HWCPCData offline) (bucket : Nat) : Nat :=
  (buffer.hashTable[bucket]?.getD 0).toNat

structure Valid (buffer : HWCPCData offline) : Prop where
  fits : buffer.length.toNat ≤ hwcPCBufferSize offline
  linked : Linked (hwcPCHashTableSize offline) (home offline) buffer.pcs buffer.links

theorem hwcPCBufferSize_pos : 0 < hwcPCBufferSize offline := by
  cases offline <;> decide

theorem hwcPCBufferSize_lt : hwcPCBufferSize offline < 65536 := by
  cases offline <;> decide

theorem hwcPCBufferSize_lt_hwcPCHashTableSize : hwcPCBufferSize offline < hwcPCHashTableSize offline := by
  cases offline <;> decide

theorem home_lt (pc : UInt64) : home offline pc < hwcPCHashTableSize offline :=
  Nat.mod_lt _ (Nat.zero_lt_of_lt hwcPCBufferSize_lt_hwcPCHashTableSize)

variable {buffer : HWCPCData offline}

theorem length_pcs (valid : buffer.Valid) : buffer.pcs.length = buffer.length.toNat := by
  simp [pcs, valid.fits]

variable {entry : Nat}

theorem getElem?_pcs (used : entry < buffer.length.toNat) : buffer.pcs[entry]? = buffer.pc[entry]? := by
  rw [pcs, List.getElem?_take_of_lt used, Vector.getElem?_toList]

theorem getElem?_rows {row : HWCRow} : buffer.rows[entry]? = some row ↔ entry < buffer.length.toNat ∧
      buffer.pc[entry]? = some row.pc ∧ buffer.count[entry]? = some row.count ∧
        buffer.hwccounts[entry]? = some row.events := by
  rw [rows, getElem?_hwcRows, pcs]
  by_cases used : entry < buffer.length.toNat
  · simp [List.getElem?_take_of_lt used, used]
  · simp [used]

variable {bucket : Nat}

theorem Valid.leads (valid : buffer.Valid)
    {place : UInt32} (held : buffer.hashTable[bucket]? = some place) (used : place > 0) :
    buffer.links bucket ≠ 0 ∧ (place - 1).toNat = buffer.links bucket - 1 ∧
      (place - 1).toNat < buffer.length.toNat := by
  have number : buffer.links bucket = place.toNat := by
    rw [links, held, Option.getD_some]
  have positive : 0 < place.toNat := by
    simpa [UInt32.lt_iff_toNat_lt] using used
  have index : (place - 1).toNat = place.toNat - 1 :=
    UInt32.toNat_sub_of_le _ _ (UInt32.le_iff_toNat_le.mpr positive)
  have bound := valid.linked.inRange bucket
  rw [length_pcs valid] at bound
  omega

theorem probe_eq_scan (valid : buffer.Valid) (pc : UInt64) :
    ∀ fuel bucket, bucket < hwcPCHashTableSize offline → buffer.probe pc fuel bucket =
      scan (hwcPCHashTableSize offline) (stopsAt (leadsTo buffer.pcs buffer.links) pc) fuel bucket := by
  intro fuel
  induction fuel with
  | zero => exact fun _ _ => rfl
  | succ fuel ih =>
    intro bucket inside
    have held : buffer.hashTable[bucket]? = some buffer.hashTable[bucket] :=
      Vector.getElem?_eq_getElem inside
    have next : (bucket + 1) % hwcPCHashTableSize offline < hwcPCHashTableSize offline :=
      Nat.mod_lt _ (by omega)
    rw [probe, scan, held, Option.bind_eq_bind, Option.bind_some]
    by_cases used : buffer.hashTable[bucket] > 0
    · obtain ⟨linked, index, below⟩ := valid.leads held used
      obtain ⟨other, found, leads⟩ := valid.linked.leads linked
      rw [← index, getElem?_pcs below] at found
      rw [if_pos used, found, Option.bind_eq_bind, Option.bind_some, ih _ next]
      by_cases same : other = pc
      · simp [stopsAt, leads, same]
      · simp [stopsAt, leads, same]
    · have zero : buffer.hashTable[bucket] = 0 := by simpa using used
      have free : leadsTo buffer.pcs buffer.links bucket = none := by
        rw [valid.linked.free_iff, links, held, zero]
        rfl
      rw [if_neg used]
      simp [stopsAt, free]

theorem probe_total (valid : buffer.Valid) (pc : UInt64) : ∃ bucket < hwcPCHashTableSize offline,
      buffer.probe pc (hwcPCHashTableSize offline) (home offline pc) = some bucket ∧
      find (hwcPCHashTableSize offline) (home offline) (leadsTo buffer.pcs buffer.links) pc = some bucket := by
  have room : buffer.pcs.length < hwcPCHashTableSize offline := by
    rw [length_pcs valid]
    exact Nat.lt_of_le_of_lt valid.fits hwcPCBufferSize_lt_hwcPCHashTableSize
  obtain ⟨bucket, inside, found⟩ := valid.linked.find_total room home_lt pc
  exact ⟨bucket, inside, (probe_eq_scan valid pc _ _ (home_lt pc)).trans found, found⟩

inductive Recorded (pc : UInt64) (evcounts : EValues) (before after : List HWCRow) : Prop
  | incremented (entry : Nat) (row : HWCRow) (present : before[entry]? = some row)
      (own : row.pc = pc) (below : row.count < 255)
      (after_eq : after = before.set entry ⟨pc, row.count + 1, addCounts row.events evcounts⟩)
  | added (after_eq : after = before ++ [⟨pc, 1, evcounts.map Int64.toUInt64⟩])

theorem existingEntry_eq (valid : buffer.Valid) {pc : UInt64} (inside : bucket < hwcPCHashTableSize offline)
    (found : find (hwcPCHashTableSize offline) (home offline)
      (leadsTo buffer.pcs buffer.links) pc = some bucket) :
    (∃ entry row, buffer.existingEntry pc bucket = some (some entry) ∧
      buffer.rows[entry]? = some row ∧ row.pc = pc ∧ row.count < 255) ∨
    buffer.existingEntry pc bucket = some none := by
  have held : buffer.hashTable[bucket]? = some buffer.hashTable[bucket] :=
    Vector.getElem?_eq_getElem inside
  by_cases used : buffer.hashTable[bucket] > 0
  · obtain ⟨linked, index, below⟩ := valid.leads held used
    have own := valid.linked.found_entry found linked
    rw [← index, getElem?_pcs below] at own
    have fits := valid.fits
    have counted : buffer.count[(buffer.hashTable[bucket] - 1).toNat]? =
        some buffer.count[(buffer.hashTable[bucket] - 1).toNat] :=
      Vector.getElem?_eq_getElem (by omega)
    have heldEvents : buffer.hwccounts[(buffer.hashTable[bucket] - 1).toNat]? =
        some buffer.hwccounts[(buffer.hashTable[bucket] - 1).toNat] :=
      Vector.getElem?_eq_getElem (by omega)
    by_cases room : buffer.count[(buffer.hashTable[bucket] - 1).toNat] < 255
    · left
      refine ⟨_, ⟨pc, _, _⟩, ?_, getElem?_rows.mpr ⟨below, own, counted, heldEvents⟩, rfl, room⟩
      simp [existingEntry, held, used, own, counted, room]
    · right
      simp [existingEntry, held, used, own, counted, room]
  · right
    simp [existingEntry, held, used]

theorem incrementCount_eq (valid : buffer.Valid)
    {row : HWCRow} (present : buffer.rows[entry]? = some row) (evcounts : EValues) :
    ∃ after, buffer.incrementCount entry evcounts = some after ∧ after.Valid ∧
      after.length = buffer.length ∧ after.rows =
        buffer.rows.set entry ⟨row.pc, row.count + 1, addCounts row.events evcounts⟩ := by
  obtain ⟨used, heldPc, heldCount, heldEvents⟩ := getElem?_rows.mp present
  obtain ⟨inside, _⟩ := Vector.getElem?_eq_some_iff.mp heldCount
  refine ⟨{ buffer with
    count := buffer.count.set entry (row.count + 1) inside
    hwccounts := buffer.hwccounts.set entry (addCounts row.events evcounts) inside },
    ?_, ⟨valid.fits, valid.linked⟩, rfl, ?_⟩
  · simp [incrementCount, heldCount, heldEvents, store?_eq_some inside]
  · rw [rows] at present
    simp only [rows, pcs, Vector.toList_set, List.take_set]
    exact hwcRows_set present _ _

theorem links_set {before after : HWCPCData offline} {bucket length : Nat}
    (inside : bucket < hwcPCHashTableSize offline)
    (newTable : after.hashTable = before.hashTable.set bucket (UInt32.ofNat before.length.toNat + 1) inside)
    (same : length = before.length.toNat) :
    after.links = Function.update before.links bucket (length + 1) := by
  funext other
  by_cases here : other = bucket
  · have bound := before.length.toNat_lt
    rw [here, Function.update_self, links, newTable, same]
    simp
    omega
  · rw [Function.update_of_ne here, links, links, newTable, Vector.getElem?_set_ne _ (Ne.symm here)]

theorem addEntry_eq (valid : buffer.Valid) {pc : UInt64}
    (room : buffer.length.toNat < hwcPCBufferSize offline) (inside : bucket < hwcPCHashTableSize offline)
    (found : find (hwcPCHashTableSize offline) (home offline)
      (leadsTo buffer.pcs buffer.links) pc = some bucket) (evcounts : EValues) :
    ∃ after, buffer.addEntry pc evcounts bucket = some after ∧ after.Valid ∧
      after.length.toNat = buffer.length.toNat + 1 ∧
      after.rows = buffer.rows ++ [⟨pc, 1, evcounts.map Int64.toUInt64⟩] := by
  have bound := @hwcPCBufferSize_lt offline
  have longer : (buffer.length + 1).toNat = buffer.length.toNat + 1 := by
    rw [UInt16.toNat_add]
    exact Nat.mod_eq_of_lt (by simpa using (by omega : buffer.length.toNat + 1 < 65536))
  let after : HWCPCData offline := { buffer with
    pc := buffer.pc.set buffer.length.toNat pc room
    count := buffer.count.set buffer.length.toNat 1 room
    hwccounts := buffer.hwccounts.set buffer.length.toNat (evcounts.map Int64.toUInt64) room
    length := buffer.length + 1
    addrBegin := if pc < buffer.addrBegin then pc else buffer.addrBegin
    addrEnd := if pc > buffer.addrEnd then pc else buffer.addrEnd
    hashTable := buffer.hashTable.set bucket (UInt32.ofNat buffer.length.toNat + 1) inside }
  have ran : buffer.addEntry pc evcounts bucket = some after := by
    simp only [addEntry, store?_eq_some room, store?_eq_some inside]
    rfl
  have newPcs : after.pcs = buffer.pcs ++ [pc] := by
    rw [pcs, longer]
    exact toList_take_set room
  refine ⟨after, ran, ⟨longer ▸ room, ?_⟩, longer, ?_⟩
  · rw [newPcs, links_set inside rfl (length_pcs valid)]
    exact valid.linked.append found
  · rw [rows, newPcs, longer, toList_take_set room, toList_take_set room]
    have fits := valid.fits
    exact hwcRows_append (by simp [pcs, fits]) (by simp [pcs, fits]) ⟨pc, 1, evcounts.map Int64.toUInt64⟩

theorem updateHWCPCData_total {before : HWCPCData offline} (valid : before.Valid)
    (room : before.length.toNat < hwcPCBufferSize offline) (pc : UInt64) (evcounts : EValues) :
    ∃ full after, updateHWCPCData pc before evcounts = some (full, after) ∧ after.Valid ∧
      full = decide (after.length.toNat = hwcPCBufferSize offline) ∧ 0 < after.length.toNat ∧
      Recorded pc evcounts before.rows after.rows := by
  obtain ⟨bucket, inside, probed, found⟩ := probe_total valid pc
  rw [home] at probed
  rcases existingEntry_eq valid inside found with
    ⟨entry, row, existing, present, own, below⟩ | missing
  · obtain ⟨after, incremented, afterValid, sameLength, content⟩ :=
      incrementCount_eq valid present evcounts
    have used := (getElem?_rows.mp present).1
    refine ⟨false, after, ?_, afterValid, ?_, ?_, .incremented entry row present own below (own ▸ content)⟩
    · simp only [updateHWCPCData, probed, existing, incremented, Option.bind_eq_bind, Option.bind_some]
      rfl
    · rw [sameLength]
      exact (decide_eq_false (by omega)).symm
    · rw [sameLength]
      omega
  · obtain ⟨after, added, afterValid, longer, content⟩ :=
      addEntry_eq valid room inside found evcounts
    refine ⟨_, after, ?_, afterValid, rfl, by omega, .added content⟩
    simp only [updateHWCPCData, probed, missing, added, Option.bind_eq_bind, Option.bind_some]
    rfl

theorem reset_valid (buffer : HWCPCData offline) : buffer.reset.Valid where
  fits := Nat.zero_le _
  linked := by
    have none : buffer.reset.links = fun _ => 0 := by
      funext bucket
      rw [links, reset, Vector.getElem?_replicate]
      split <;> rfl
    rw [none]
    exact linked_nil

theorem rows_reset (buffer : HWCPCData offline) : buffer.reset.rows = [] := rfl

end HWCPCData

end OpenSpeedShop
