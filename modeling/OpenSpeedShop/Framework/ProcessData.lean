import OpenSpeedShop.Library.BigEndianWords

/-!
Reading the raw data files of an offline experiment, in the build whose collectors write them with the
tool's own runtimes. `decodes` says of which blobs `xdr_OpenSS_DataHeader` decodes the header; storing
others ends the process.
-/

namespace OpenSpeedShop

open BigEndianWords (read_eq_none length_of_read read_append all_of_read length_write eq_nil_of_all
  read_write)

namespace OfflineExperiment

structure Enqueued where
  position : Nat
  datablob : List UInt8
deriving DecidableEq

/-- The loop from a position in the file on. It has no outcome when the process
does not come to the end of the file. -/
def readBlobs (decodes : List UInt8 → Bool) (position : Nat) (bytes : List UInt8) : Option (List Enqueued) :=
  match read : BigEndianWords.read bytes with
  | none => some []
  | some (blobsize, behind) =>
    have : behind.length < bytes.length := by
      rw [BigEndianWords.length_of_read read]
      omega
    if blobsize < 1024 then readBlobs decodes (position + 4) behind
    -- The size of the allocation wraps around, and `memset` writes behind it.
    else if 2 ^ 32 ≤ blobsize + 4 then none
    -- A read of too few bytes has consumed the rest of the file.
    else if behind.length < blobsize then some []
    else if decodes (behind.take blobsize) then
      (readBlobs decodes (position + 4 + blobsize) (behind.drop blobsize)).map
        (⟨position + 4, behind.take blobsize⟩ :: ·)
    else none
termination_by bytes.length
decreasing_by
  · exact this
  · rw [List.length_drop]
    omega

def processData (decodes : List UInt8 → Bool) (rawfile : List UInt8) : Option (List Enqueued × Bool) :=
  (readBlobs decodes 0 rawfile).map fun enqueued => (enqueued, !enqueued.isEmpty)

structure Record where
  payload : List UInt8
  fits : payload.length < 2 ^ 32

namespace Record

def encode (record : Record) : List UInt8 :=
  BigEndianWords.write record.payload.length ++ record.payload

def Large (record : Record) : Prop := 1024 ≤ record.payload.length

instance (record : Record) : Decidable record.Large := inferInstanceAs (Decidable (_ ≤ _))

end Record

def Truncated (tail : List UInt8) : Prop :=
  match BigEndianWords.read tail with
  | none => True
  | some (length, behind) => behind.length < length

structure RawFile where
  records : List Record
  tail : List UInt8
  truncated : Truncated tail

def contents (records : List Record) (tail : List UInt8) : List UInt8 :=
  records.flatMap Record.encode ++ tail

def expected (position : Nat) : List Record → List Enqueued
  | [] => []
  | record :: rest =>
    let later := expected (position + record.encode.length) rest
    if record.Large then ⟨position + 4, record.payload⟩ :: later else later

def RawFile.contents (file : RawFile) : List UInt8 :=
  OfflineExperiment.contents file.records file.tail

def RawFile.expected (file : RawFile) : List Enqueued :=
  OfflineExperiment.expected 0 file.records

end OfflineExperiment

/-!
Which raw data files are read completely. A record that is too short is not skipped: the bytes behind
its length are read as lengths, until a word is large enough for the length of a blob.
-/

namespace OfflineExperiment

abbrev Small (word : Nat) : Prop := word < 1024

def Harmless : List UInt8 → Prop
  | b₀ :: b₁ :: b₂ :: b₃ :: behind =>
    if Small (BigEndianWords.value b₀ b₁ b₂ b₃) then Harmless behind
    else BigEndianWords.value b₀ b₁ b₂ b₃ + 4 < 2 ^ 32 ∧ behind.length < BigEndianWords.value b₀ b₁ b₂ b₃
  | _ => True

/-- The bytes between two large records are read as whole words, all of them
small. The gap holds the short records since the last large one. -/
def InStep (decodes : List UInt8 → Bool) (tail : List UInt8) : (gap : List UInt8) → List Record → Prop
  | gap, [] => Harmless (gap ++ tail)
  | gap, record :: rest =>
    if record.Large then
      BigEndianWords.All Small gap ∧ record.payload.length + 4 < 2 ^ 32 ∧
        decodes record.payload ∧ InStep decodes tail [] rest
    else InStep decodes tail (gap ++ record.encode) rest

def RawFile.InStep (decodes : List UInt8 → Bool) (file : RawFile) : Prop :=
  OfflineExperiment.InStep decodes file.tail [] file.records

variable {decodes : List UInt8 → Bool} {position : Nat} {bytes behind : List UInt8}

theorem readBlobs_end (read : BigEndianWords.read bytes = none) :
    readBlobs decodes position bytes = some [] := by
  rw [readBlobs]
  split
  · rfl
  · rename_i other
    rw [read] at other
    cases other

theorem readBlobs_read {blobsize : Nat} (read : BigEndianWords.read bytes = some (blobsize, behind)) :
    readBlobs decodes position bytes = if blobsize < 1024 then readBlobs decodes (position + 4) behind
      else if 2 ^ 32 ≤ blobsize + 4 then none else if behind.length < blobsize then some []
      else if decodes (behind.take blobsize) then
        (readBlobs decodes (position + 4 + blobsize) (behind.drop blobsize)).map
          (⟨position + 4, behind.take blobsize⟩ :: ·) else none := by
  rw [readBlobs]
  split
  · rename_i other
    rw [read] at other
    cases other
  · rename_i other
    obtain ⟨rfl, rfl⟩ := Prod.mk.inj (Option.some.inj (read.symm.trans other))
    rfl

theorem harmless_end (read : BigEndianWords.read bytes = none) : Harmless bytes := by
  match bytes with
  | [] | [_] | [_, _] | [_, _, _] => trivial
  | _ :: _ :: _ :: _ :: _ => cases read

theorem harmless_read {blobsize : Nat} (read : BigEndianWords.read bytes = some (blobsize, behind)) :
    Harmless bytes ↔ if Small blobsize then Harmless behind
      else blobsize + 4 < 2 ^ 32 ∧ behind.length < blobsize := by
  match bytes with
  | [] | [_] | [_, _] | [_, _, _] => cases read
  | _ :: _ :: _ :: _ :: _ =>
    obtain ⟨rfl, rfl⟩ := Prod.mk.inj (Option.some.inj read)
    rfl

theorem words_induction {motive : List UInt8 → Prop}
    (ends : ∀ bytes, BigEndianWords.read bytes = none → motive bytes)
    (goes : ∀ bytes blobsize behind, BigEndianWords.read bytes = some (blobsize, behind) →
      (∀ later : List UInt8, later.length ≤ behind.length → motive later) → motive bytes)
    (bytes : List UInt8) : motive bytes := by
  induction size : bytes.length using Nat.strongRecOn generalizing bytes with
  | ind size ih =>
    cases read : BigEndianWords.read bytes with
    | none => exact ends bytes read
    | some found =>
      obtain ⟨blobsize, behind⟩ := found
      have longer := length_of_read read
      refine goes bytes blobsize behind read fun later short => ih later.length ?_ later rfl
      omega

theorem readBlobs_eq_nil : ∀ position, readBlobs decodes position bytes = some [] ↔ Harmless bytes := by
  induction bytes using words_induction with
  | ends bytes read =>
    intro position
    simp only [readBlobs_end read, harmless_end read]
  | goes bytes blobsize behind read ih =>
    intro position
    rw [readBlobs_read read, harmless_read read]
    by_cases small : Small blobsize
    · rw [if_pos small, if_pos small]
      exact ih behind (Nat.le_refl _) _
    · rw [if_neg small, if_neg small]
      by_cases wraps : 2 ^ 32 ≤ blobsize + 4
      · rw [if_pos wraps]
        simp only [reduceCtorEq, false_iff, not_and]
        omega
      · rw [if_neg wraps]
        by_cases cut : behind.length < blobsize
        · rw [if_pos cut]
          exact iff_of_true rfl ⟨Nat.lt_of_not_le wraps, cut⟩
        · rw [if_neg cut]
          split <;> simp [cut]

theorem position_of_readBlobs : ∀ {position : Nat} {enqueued : List Enqueued},
    readBlobs decodes position bytes = some enqueued → ∀ blob ∈ enqueued, position + 4 ≤ blob.position := by
  induction bytes using words_induction with
  | ends bytes read =>
    intro position enqueued result blob member
    rw [readBlobs_end read] at result
    obtain rfl := Option.some.inj result
    cases member
  | goes bytes blobsize behind read ih =>
    intro position enqueued result blob member
    rw [readBlobs_read read] at result
    split_ifs at result with small wraps cut decoded
    · have later := ih behind (Nat.le_refl _) result blob member
      omega
    · obtain rfl := Option.some.inj result
      cases member
    · obtain ⟨later, rest, rfl⟩ := Option.map_eq_some_iff.mp result
      rcases List.mem_cons.mp member with rfl | member
      · exact Nat.le_refl _
      · have shorter : (behind.drop blobsize).length ≤ behind.length := by
          rw [List.length_drop]
          omega
        have behindIt := ih _ shorter rest blob member
        omega

theorem readBlobs_small {gap : List UInt8} (small : BigEndianWords.All Small gap)
    (rest : List UInt8) : ∀ position,
    readBlobs decodes position (gap ++ rest) = readBlobs decodes (position + gap.length) rest := by
  induction gap using words_induction with
  | ends gap read =>
    intro position
    have short := read_eq_none.mp read
    obtain rfl := (eq_nil_of_all short).mp small
    rfl
  | goes gap word behind read ih =>
    intro position
    have ⟨first, others⟩ := (all_of_read read).mp small
    rw [readBlobs_read (read_append read rest), if_pos first,
      ih behind (Nat.le_refl _) others, length_of_read read]
    congr 1
    omega

theorem readBlobs_large {record : Record} (large : record.Large) (rest : List UInt8) :
    readBlobs decodes position (record.encode ++ rest) =
      if record.payload.length + 4 < 2 ^ 32 ∧ decodes record.payload then
        (readBlobs decodes (position + record.encode.length) rest).map (⟨position + 4, record.payload⟩ :: ·)
      else none := by
  have read := read_write record.fits (record.payload ++ rest)
  have notSmall : ¬ record.payload.length < 1024 := Nat.not_lt.mpr large
  have whole : ¬ (record.payload ++ rest).length < record.payload.length := by
    rw [List.length_append]
    omega
  have length : position + record.encode.length = position + 4 + record.payload.length := by
    rw [Record.encode, List.length_append, length_write]
    omega
  rw [Record.encode, List.append_assoc, readBlobs_read read, if_neg notSmall, if_neg whole,
    List.take_left, List.drop_left, ← Record.encode, length]
  by_cases wraps : 2 ^ 32 ≤ record.payload.length + 4
  · rw [if_pos wraps, if_neg fun both => by omega]
  · have small : record.payload.length + 4 < 2 ^ 32 := Nat.lt_of_not_le wraps
    simp only [if_neg wraps, small, true_and]

theorem first_of_readBlobs {word : Nat} {blob : Enqueued} {later : List Enqueued}
    (read : BigEndianWords.read bytes = some (word, behind))
    (result : readBlobs decodes position bytes = some (blob :: later)) : blob.position = position + 4 ∨
      Small word ∧ readBlobs decodes (position + 4) behind = some (blob :: later) := by
  rw [readBlobs_read read] at result
  split_ifs at result with small wraps cut decoded
  · exact Or.inr ⟨small, result⟩
  · cases result
  · obtain ⟨rest, -, same⟩ := Option.map_eq_some_iff.mp result
    obtain ⟨rfl, -⟩ := List.cons.inj same
    exact Or.inl rfl

theorem small_of_readBlobs {gap rest blob : List UInt8} {record : Record}
    {later : List Enqueued} : ∀ {position : Nat},
    readBlobs decodes position (gap ++ (record.encode ++ rest)) =
      some (⟨position + gap.length + 4, blob⟩ :: later) → BigEndianWords.All Small gap := by
  induction gap using words_induction with
  | ends gap read =>
    intro position result
    have short := read_eq_none.mp read
    rw [eq_nil_of_all short]
    by_contra nonempty
    have positive := List.length_pos_iff.mpr nonempty
    cases started : BigEndianWords.read (gap ++ (record.encode ++ rest)) with
    | none =>
      have tooShort := read_eq_none.mp started
      simp only [Record.encode, List.length_append, length_write] at tooShort
      omega
    | some found =>
      rcases first_of_readBlobs started result with here | ⟨-, result⟩
      · simp only at here
        omega
      · have behindIt := position_of_readBlobs result _ List.mem_cons_self
        simp only at behindIt
        omega
  | goes gap word behind read ih =>
    intro position result
    have length := length_of_read read
    have started := read_append read (record.encode ++ rest)
    rw [all_of_read read]
    rcases first_of_readBlobs started result with here | ⟨small, result⟩
    · simp only at here
      omega
    · have place : position + gap.length + 4 = position + 4 + behind.length + 4 := by omega
      rw [place] at result
      exact ⟨small, ih behind (Nat.le_refl _) result⟩

theorem expected_eq (decodes : List UInt8 → Bool) (tail : List UInt8) (records : List Record) :
    ∀ (gap : List UInt8) (position : Nat), readBlobs decodes position (gap ++ contents records tail) =
          some (expected (position + gap.length) records) ↔ InStep decodes tail gap records := by
  induction records with
  | nil =>
    intro gap position
    exact readBlobs_eq_nil position
  | cons record rest ih =>
    intro gap position
    have split : contents (record :: rest) tail = record.encode ++ contents rest tail := by
      simp [contents]
    rw [split, expected, InStep]
    by_cases large : record.Large
    · rw [if_pos large, if_pos large]
      constructor
      · intro result
        have small := small_of_readBlobs result
        rw [readBlobs_small small, readBlobs_large large] at result
        split_ifs at result with passed
        obtain ⟨later, found, same⟩ := Option.map_eq_some_iff.mp result
        obtain ⟨-, rfl⟩ := List.cons.inj same
        exact ⟨small, passed.1, passed.2, (ih [] _).mp found⟩
      · rintro ⟨small, fits, decoded, later⟩
        have passed := (ih [] (position + gap.length + record.encode.length)).mpr later
        rw [List.nil_append, List.length_nil, Nat.add_zero] at passed
        rw [readBlobs_small small, readBlobs_large large, if_pos ⟨fits, decoded⟩, passed]
        rfl
    · rw [if_neg large, if_neg large, ← ih, List.append_assoc, List.length_append, Nat.add_assoc]

/-- Every blob is the payload of its record exactly when the file is in step. -/
theorem processed_exactly_iff (decodes : List UInt8 → Bool) (file : RawFile) :
    processData decodes file.contents = some (file.expected, !file.expected.isEmpty) ↔
      file.InStep decodes := by
  rw [RawFile.InStep, ← expected_eq decodes file.tail file.records [] 0, processData, Option.map_eq_some_iff]
  constructor
  · rintro ⟨enqueued, found, same⟩
    obtain ⟨rfl, -⟩ := Prod.mk.inj same
    exact found
  · intro found
    exact ⟨file.expected, found, rfl⟩

def zeros : Record where
  payload := List.replicate 1024 0
  fits := by rw [List.length_replicate]; decide

def misleading : RawFile where
  records := [⟨[0, 0, 8, 0], by decide⟩, zeros]
  tail := []
  truncated := trivial

theorem shortRecord_hides_next :
    (processData (fun _ => true) misleading.contents).map (fun passed => passed.1.map Enqueued.datablob) ≠
      some ((misleading.records.filter fun record => record.Large).map Record.payload) := by
  have behind : zeros.payload.length = 1024 := List.length_replicate
  have encoded : misleading.contents =
      0 :: 0 :: 0 :: 4 :: 0 :: 0 :: 8 :: 0 :: 0 :: 0 :: 4 :: 0 :: zeros.payload := by
    simp only [RawFile.contents, contents, misleading, List.flatMap_cons, List.flatMap_nil,
      Record.encode, behind, List.append_nil]
    rfl
  have large : (misleading.records.filter fun record => record.Large) = [zeros] := by
    simp only [misleading, List.filter_cons, Record.Large, behind]
    rfl
  have nothing : readBlobs (fun _ => true) 0 misleading.contents = some [] := by
    rw [encoded, readBlobs_eq_nil, Harmless, if_pos (by decide), Harmless, if_neg (by decide)]
    simp only [List.length_cons, behind]
    decide
  rw [processData, nothing, large]
  intro same
  cases same

end OfflineExperiment

end OpenSpeedShop
