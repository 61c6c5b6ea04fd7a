import OpenSpeedShop.Collectors.Pcsamp
import OpenSpeedShop.Framework.CompressDatabaseCore

/-!
The buffer of unique program counters lists what was inserted as long as its
length, a counter of 16 bits, does not wrap around.
-/

namespace OpenSpeedShop

open Fallible LinearProbing

namespace PCBuffer

def home (pc : UInt64) : Nat := (pc >>> 4).toNat % hashTableSize

def bucketOf (pc : UInt64) (buffer : PCBuffer) : Option Nat :=
  scan hashTableSize (stops pc buffer) hashTableSize (home pc)

structure Lists (seen : List UInt64) (buffer : PCBuffer) : Prop where
  nodup : buffer.addresses.Nodup
  mem_iff : ∀ pc, pc ∈ buffer.addresses ↔ pc ∈ seen
  length : buffer.length.toNat = seen.toFinset.card

def InBounds (pc : UInt64) (buffer : PCBuffer) : Prop :=
  buffer.length.toNat < size ∧
    (∀ bucket, buffer.hashTable bucket - 1 < size) ∧
    ∀ bucket, bucketOf pc buffer = some bucket → bucket < hashTableSize

/-- Insertions from here on keep the listing until the buffer is reported full, and
it is reported full exactly when the capacity is reached. -/
def KeepsListing : (pcs seen : List UInt64) → PCBuffer → Prop
  | [], _, _ => True
  | pc :: rest, seen, buffer =>
    ∃ full next, buffer.update pc = .ok (full, next) ∧ InBounds pc buffer ∧
      (full = true ↔ (seen ++ [pc]).toFinset.card = size) ∧
      (full = false → Lists (seen ++ [pc]) next ∧ KeepsListing rest (seen ++ [pc]) next)

def table (buffer : PCBuffer) (bucket : Nat) : Option UInt64 :=
  if buffer.hashTable bucket = 0 then none else some (buffer.pc (buffer.hashTable bucket - 1))

structure Valid (seen : List UInt64) (buffer : PCBuffer) : Prop extends Lists seen buffer where
  linked : ∀ bucket, buffer.hashTable bucket ≤ buffer.length.toNat
  placed : Placed hashTableSize home buffer.table
  current : ∀ index < buffer.length.toNat, ∃ bucket, buffer.hashTable bucket = index + 1

theorem home_lt (pc : UInt64) : home pc < hashTableSize := Nat.mod_lt _ (by decide)

theorem length_lt_size (buffer : PCBuffer) : buffer.length.toNat < size :=
  Nat.lt_trans (UInt16.toNat_lt buffer.length) (by decide)

theorem stops_eq (pc : UInt64) (buffer : PCBuffer) : stops pc buffer = stopsAt buffer.table pc := by
  funext bucket
  by_cases free : buffer.hashTable bucket = 0
  · simp [stops, stopsAt, table, free]
  · have used : 0 < buffer.hashTable bucket := Nat.pos_of_ne_zero free
    by_cases same : buffer.pc (buffer.hashTable bucket - 1) = pc
    · simp [stops, stopsAt, table, free, same]
    · simp [stops, stopsAt, table, free, used, same]

variable {pc : UInt64} {buffer : PCBuffer}

theorem holds_iff {bucket : Nat} : holds pc buffer bucket = true ↔ buffer.table bucket = some pc := by
  by_cases free : buffer.hashTable bucket = 0
  · simp [holds, table, free]
  · have used : 0 < buffer.hashTable bucket := Nat.pos_of_ne_zero free
    simp [holds, table, free, used]

theorem mem_addresses : pc ∈ buffer.addresses ↔ ∃ index < buffer.length.toNat, buffer.pc index = pc := by
  simp [addresses]

section

variable {seen : List UInt64} {buffer : PCBuffer} (valid : Valid seen buffer)

include valid

theorem Valid.mem_addresses_of_table {bucket : Nat} {pc : UInt64}
    (holds : buffer.table bucket = some pc) : pc ∈ buffer.addresses := by
  have below := valid.linked bucket
  by_cases free : buffer.hashTable bucket = 0
  · simp [table, free] at holds
  · refine mem_addresses.mpr ⟨buffer.hashTable bucket - 1, by omega, ?_⟩
    simpa [table, free] using holds

theorem Valid.exists_free : ∃ bucket < hashTableSize, buffer.table bucket = none := by
  have known : ∀ bucket pc, buffer.table bucket = some pc → pc ∈ buffer.addresses.toFinset :=
    fun bucket pc holds => List.mem_toFinset.mpr (valid.mem_addresses_of_table holds)
  have few : buffer.addresses.toFinset.card < hashTableSize := by
    refine Nat.lt_of_le_of_lt (List.toFinset_card_le _) ?_
    rw [addresses, List.length_map, List.length_range]
    exact Nat.lt_of_lt_of_le (UInt16.toNat_lt buffer.length) (by decide)
  exact valid.placed.exists_free known few

theorem Valid.bucketOf_total (pc : UInt64) : ∃ bucket, bucketOf pc buffer = some bucket ∧
    bucket < hashTableSize ∧ find hashTableSize home buffer.table pc = some bucket := by
  obtain ⟨free, freeInside, isFree⟩ := valid.exists_free
  obtain ⟨bucket, found⟩ := find_total home_lt freeInside isFree pc
  refine ⟨bucket, ?_, find_lt home_lt found, found⟩
  rw [bucketOf, stops_eq]
  exact found

theorem Valid.inBounds (pc : UInt64) : InBounds pc buffer := by
  refine ⟨length_lt_size buffer, fun bucket => ?_, fun bucket found => ?_⟩
  · have below := valid.linked bucket
    have bound := length_lt_size buffer
    omega
  · obtain ⟨other, again, inside, -⟩ := valid.bucketOf_total pc
    rw [found] at again
    exact Option.some.inj again ▸ inside

theorem Valid.holds_iff_seen {pc : UInt64} {bucket : Nat}
    (found : find hashTableSize home buffer.table pc = some bucket) :
    holds pc buffer bucket = true ↔ pc ∈ seen := by
  rw [holds_iff, ← valid.mem_iff]
  constructor
  · exact valid.mem_addresses_of_table
  · intro member
    obtain ⟨index, inside, rfl⟩ := mem_addresses.mp member
    obtain ⟨place, link⟩ := valid.current index inside
    have leads : buffer.table place = some (buffer.pc index) := by simp [table, link]
    have same := valid.placed place _ leads
    rw [found] at same
    rw [Option.some.inj same]
    exact leads

end

theorem valid_empty : Valid [] empty where
  nodup := List.nodup_nil
  mem_iff := fun _ => Iff.rfl
  length := rfl
  linked := fun _ => Nat.le_refl _
  placed := placed_empty
  current := fun index inside => absurd inside (Nat.not_lt_zero index)

theorem toFinset_card_snoc {seen : List UInt64} : (seen ++ [pc]).toFinset.card =
      if pc ∈ seen then seen.toFinset.card else seen.toFinset.card + 1 := by
  have same : (seen ++ [pc]).toFinset = insert pc seen.toFinset := by
    ext other
    simp
  rw [same]
  split
  · rename_i known
    rw [Finset.insert_eq_of_mem (List.mem_toFinset.mpr known)]
  · rename_i new
    exact Finset.card_insert_of_notMem fun member => new (List.mem_toFinset.mp member)

section

variable {seen : List UInt64} {buffer : PCBuffer} {pc : UInt64} {bucket : Nat}

theorem Valid.again (valid : Valid seen buffer) (known : pc ∈ seen) : Valid (seen ++ [pc]) buffer where
  nodup := valid.nodup
  mem_iff other := by
    rw [valid.mem_iff, List.mem_append, List.mem_singleton]
    exact ⟨Or.inl, fun either => either.elim id fun same => same ▸ known⟩
  length := by
    rw [toFinset_card_snoc, if_pos known]
    exact valid.length
  linked := valid.linked
  placed := valid.placed
  current := valid.current

theorem toNat_length_add (room : buffer.length.toNat + 1 < 2 ^ 16) :
    (buffer.add pc bucket).length.toNat = buffer.length.toNat + 1 := by
  have unit : (1 : UInt16).toNat = 1 := rfl
  rw [add, UInt16.toNat_add, unit, Nat.mod_eq_of_lt room]

theorem addresses_add (room : buffer.length.toNat + 1 < 2 ^ 16) :
    (buffer.add pc bucket).addresses = buffer.addresses ++ [pc] := by
  rw [addresses, toNat_length_add room, List.range_succ, List.map_append]
  congr 1
  · refine List.map_congr_left fun index member => ?_
    exact Function.update_of_ne (Nat.ne_of_lt (List.mem_range.mp member)) _ _
  · simp [add]

theorem Valid.table_add (valid : Valid seen buffer) :
    (buffer.add pc bucket).table = Function.update buffer.table bucket (some pc) := by
  funext other
  by_cases same : other = bucket
  · subst same
    simp [table, add]
  · have below := valid.linked other
    rw [Function.update_of_ne same]
    by_cases free : buffer.hashTable other = 0
    · simp [table, add, same, free]
    · have old : buffer.hashTable other - 1 ≠ buffer.length.toNat := by omega
      simp [table, add, same, free, old]

theorem Valid.add (valid : Valid seen buffer) (new : pc ∉ seen) (room : buffer.length.toNat + 1 < 2 ^ 16)
    (found : find hashTableSize home buffer.table pc = some bucket) :
    Valid (seen ++ [pc]) (buffer.add pc bucket) where
  nodup := by
    rw [addresses_add room]
    have fresh : pc ∉ buffer.addresses := fun member => new ((valid.mem_iff pc).mp member)
    exact valid.nodup.append (List.nodup_singleton pc) (by simpa using fresh)
  mem_iff other := by
    rw [addresses_add room, List.mem_append, List.mem_append, valid.mem_iff]
  length := by
    rw [toNat_length_add room, toFinset_card_snoc, if_neg new, valid.length]
  linked other := by
    rw [toNat_length_add room]
    by_cases same : other = bucket
    · simp [PCBuffer.add, same]
    · have below := valid.linked other
      rw [PCBuffer.add]
      dsimp only
      rw [Function.update_of_ne same]
      omega
  placed := by
    rw [valid.table_add]
    exact valid.placed.update found
  current index inside := by
    rw [toNat_length_add room] at inside
    by_cases last : index = buffer.length.toNat
    · exact ⟨bucket, by simp [PCBuffer.add, last]⟩
    · obtain ⟨place, link⟩ := valid.current index (by omega)
      refine ⟨place, ?_⟩
      have apart : place ≠ bucket := by
        rintro rfl
        -- The bucket of a new address leads nowhere.
        rcases find_stops found with free | own
        · simp [table, link] at free
        · exact new ((valid.holds_iff_seen found).mp (holds_iff.mpr own))
      rw [PCBuffer.add]
      dsimp only
      rw [Function.update_of_ne apart]
      exact link

end

theorem Valid.update {seen : List UInt64} (valid : Valid seen buffer)
    (room : (seen ++ [pc]).toFinset.card < 2 ^ 16) :
    ∃ next, buffer.update pc = .ok (false, next) ∧ Valid (seen ++ [pc]) next := by
  obtain ⟨bucket, probed, -, found⟩ := valid.bucketOf_total pc
  rw [bucketOf, home] at probed
  by_cases known : pc ∈ seen
  · refine ⟨buffer, ?_, valid.again known⟩
    simp only [PCBuffer.update, probed, (valid.holds_iff_seen found).mpr known, if_true]
    rfl
  · have here : holds pc buffer bucket = false := by
      rw [← Bool.not_eq_true, valid.holds_iff_seen found]
      exact known
    rw [toFinset_card_snoc, if_neg known, ← valid.length] at room
    refine ⟨_, ?_, valid.add known room found⟩
    have notFull : (buffer.add pc bucket).length.toNat ≠ size :=
      Nat.ne_of_lt (length_lt_size _)
    simp only [PCBuffer.update, probed, here, notFull, decide_false]
    rfl

theorem Valid.addAll {pcs : List UInt64} : ∀ {seen : List UInt64} {buffer : PCBuffer},
    Valid seen buffer → (seen ++ pcs).toFinset.card < 2 ^ 16 →
    KeepsListing pcs seen buffer ∧ ∃ final, buffer.addAll pcs = .ok final ∧ Valid (seen ++ pcs) final := by
  induction pcs with
  | nil =>
    intro seen buffer valid _
    exact ⟨trivial, buffer, rfl, by rwa [List.append_nil]⟩
  | cons pc rest ih =>
    intro seen buffer valid room
    have whole : seen ++ pc :: rest = (seen ++ [pc]) ++ rest := by simp
    rw [whole] at room ⊢
    have roomFirst : (seen ++ [pc]).toFinset.card < 2 ^ 16 :=
      Nat.lt_of_le_of_lt (Finset.card_le_card fun other => by
        simp only [List.toFinset_append, Finset.mem_union]
        exact Or.inl) room
    obtain ⟨next, ran, validNext⟩ := valid.update roomFirst
    obtain ⟨keeps, final, remaining, validFinal⟩ := ih validNext room
    refine ⟨⟨false, next, ran, valid.inBounds pc, ?_, fun _ => ⟨validNext.toLists, keeps⟩⟩,
      final, ?_, validFinal⟩
    · have below : (seen ++ [pc]).toFinset.card ≠ size :=
        Nat.ne_of_lt (Nat.lt_trans roomFirst (by decide))
      exact ⟨fun impossible => absurd impossible Bool.false_ne_true, fun full => absurd full below⟩
    · rw [PCBuffer.addAll, List.foldlM_cons, ran]
      exact remaining

theorem KeepsListing.card_lt {pcs : List UInt64} : ∀ {seen : List UInt64} {buffer : PCBuffer},
    KeepsListing pcs seen buffer → seen.toFinset.card < 2 ^ 16 → (seen ++ pcs).toFinset.card < 2 ^ 16 := by
  induction pcs with
  | nil =>
    intro seen buffer _ few
    rwa [List.append_nil]
  | cons pc rest ih =>
    rintro seen buffer ⟨full, next, -, -, reported, listing⟩ few
    have atMost : (seen ++ [pc]).toFinset.card ≤ seen.toFinset.card + 1 := by
      rw [toFinset_card_snoc]
      split <;> omega
    have below : (seen ++ [pc]).toFinset.card ≠ size := by
      have large : 2 ^ 16 < size := by decide
      omega
    have notFull : full = false := by
      rw [← Bool.not_eq_true, reported]
      exact below
    obtain ⟨lists, keeps⟩ := listing notFull
    have fewNext : (seen ++ [pc]).toFinset.card < 2 ^ 16 := by
      rw [← lists.length]
      exact UInt16.toNat_lt next.length
    have whole : seen ++ pc :: rest = (seen ++ [pc]) ++ rest := by simp
    rw [whole]
    exact ih keeps fewNext

end PCBuffer

namespace Pcsamp

def getUniquePCValues (data : Data) (buffer : PCBuffer) : Result PCBuffer :=
  buffer.addAll data.pc

def getUniqueAddresses (data : Data) (uaddresses : Finset Address) : Finset Address :=
  data.pc.foldl (fun uaddresses pc => insert pc uaddresses) uaddresses

theorem getUniqueAddresses_eq (data : Data) : ∀ (uaddresses : Finset Address),
    getUniqueAddresses data uaddresses = uaddresses ∪ data.pc.toFinset := by
  unfold getUniqueAddresses
  induction data.pc with
  | nil => simp
  | cons pc rest ih =>
    intro uaddresses
    rw [List.foldl_cons, ih]
    ext address
    simp

/-- The buffer lists the distinct addresses of the samples in every state that the
insertions reach, and in the end holds the same set as the other overload. -/
def CollectsDistinct (data : Data) : Prop :=
  PCBuffer.KeepsListing data.pc [] .empty ∧
    ∃ buffer, getUniquePCValues data .empty = .ok buffer ∧
      buffer.addresses.toFinset = getUniqueAddresses data ∅

theorem collectsDistinct_of_few {data : Data} (few : data.pc.toFinset.card < 2 ^ 16) :
    CollectsDistinct data := by
  obtain ⟨keeps, final, ran, valid⟩ := @PCBuffer.Valid.addAll data.pc [] .empty PCBuffer.valid_empty few
  refine ⟨keeps, final, ran, ?_⟩
  ext address
  rw [getUniqueAddresses_eq, List.mem_toFinset, valid.mem_iff]
  simp

theorem few_of_collectsDistinct {data : Data} (collects : CollectsDistinct data) :
    data.pc.toFinset.card < 2 ^ 16 :=
  collects.1.card_lt (by decide)

/-- The buffer collects the distinct program counters exactly when there are fewer
of them than its counter has values. -/
theorem collectsDistinct_iff (data : Data) : CollectsDistinct data ↔ data.pc.toFinset.card < 2 ^ 16 :=
  ⟨few_of_collectsDistinct, collectsDistinct_of_few⟩

def samplesUpTo (count : Nat) : Data := ⟨0, (List.range count).map UInt64.ofNat, []⟩

theorem card_samplesUpTo {count : Nat} (fits : count ≤ 2 ^ 64) :
    (samplesUpTo count).pc.toFinset.card = count := by
  have nodup : ((List.range count).map UInt64.ofNat).Nodup := by
    refine (List.nodup_map_iff_inj_on List.nodup_range).mpr fun first inside second other same => ?_
    have bound := List.mem_range.mp inside
    have otherBound := List.mem_range.mp other
    have sameNat := congrArg UInt64.toNat same
    rwa [UInt64.toNat_ofNat_of_lt' (Nat.lt_of_lt_of_le bound fits),
      UInt64.toNat_ofNat_of_lt' (Nat.lt_of_lt_of_le otherBound fits)] at sameNat
  rw [samplesUpTo, List.toFinset_card_of_nodup nodup, List.length_map, List.length_range]

theorem wrapped_loses : (samplesUpTo (2 ^ 16)).pc.toFinset.card = 2 ^ 16 ∧
    2 ^ 16 < PCBuffer.size ∧ ¬ CollectsDistinct (samplesUpTo (2 ^ 16)) := by
  have card := @card_samplesUpTo (2 ^ 16) (by decide)
  refine ⟨card, by decide, fun collects => ?_⟩
  have few := few_of_collectsDistinct collects
  rw [card] at few
  exact Nat.lt_irrefl _ few

end Pcsamp

end OpenSpeedShop
