import OpenSpeedShop.Library.CString
import OpenSpeedShop.Library.LittleEndian
import Mathlib.Data.Int.Basic

/-!
The files of saved views: a header of seven words, the command and the two markers, each
behind a colon, and the report behind the last colon.
-/

namespace OpenSpeedShop.SavedViewFiles

open CString (upToNul)
open List (length_append length_cons cons_append append_assoc foldl_cons nil_append)

structure SaveFileHeader where
  type : Int64
  dataOffset : Int64
  commandOffset : Int64
  eocOffset : Int64
  eolOffset : Int64
  lastSample : UInt64
  generationTime : UInt64
deriving DecidableEq

namespace SaveFileHeader

def empty : SaveFileHeader := ⟨0, 0, 0, 0, 0, 0, 0⟩

def words (header : SaveFileHeader) : List UInt64 :=
  [header.type.toUInt64, header.dataOffset.toUInt64, header.commandOffset.toUInt64,
    header.eocOffset.toUInt64, header.eolOffset.toUInt64, header.lastSample, header.generationTime]

def ofWords : List UInt64 → SaveFileHeader
  | [type, dataOffset, commandOffset, eocOffset, eolOffset, lastSample, generationTime] =>
    ⟨type.toInt64, dataOffset.toInt64, commandOffset.toInt64, eocOffset.toInt64,
      eolOffset.toInt64, lastSample, generationTime⟩
  | _ => empty

def bytes (header : SaveFileHeader) : List UInt8 := LittleEndian.writeWords header.words

end SaveFileHeader

structure SavedViewInfo where
  svh : SaveFileHeader
  eocMarker : List UInt8
  eolMarker : List UInt8
  originalCmd : List UInt8
deriving DecidableEq

def setHeader (svi : SaveFileHeader) (eocStr eolStr cmdStr : List UInt8) : SavedViewInfo where
  svh := if svi.type < 2 then { svi with generationTime := 0 } else svi
  eocMarker := eocStr
  eolMarker := eolStr
  originalCmd := cmdStr

def readLimit : Nat := 0x7ffff000

/-- The header that is compiled when a file of fewer bytes was read stays empty. -/
def readHeader (buffer : List UInt8) : SaveFileHeader :=
  if 56 ≤ buffer.length then .ofWords (LittleEndian.readWords 7 buffer) else .empty

/-- The sum of the size and the offset is an unsigned one. -/
def accepts (header : SaveFileHeader) (num : Nat) : Bool :=
  (header.type = 1 ∨ header.type = 2) && decide ((56 + header.dataOffset.toUInt64).toNat ≤ num)

/-- The write of a terminator before an offset has no outcome outside of what was read. -/
def terminate (buffer : List UInt8) (offset : Int64) : Option (List UInt8) :=
  if 1 ≤ offset.toInt ∧ offset.toInt ≤ buffer.length then
    some (buffer.set (offset.toInt - 1).toNat 0)
  else none

/-- The string at an offset, which is read up to its terminator. -/
def stringAt (buffer : List UInt8) (offset : Int64) : Option (List UInt8) :=
  if 0 ≤ offset.toInt ∧ 0 ∈ buffer.drop offset.toInt.toNat then
    some (upToNul 0 (buffer.drop offset.toInt.toNat))
  else none

def SaveFileHeader.offsets (header : SaveFileHeader) : List Int64 :=
  [header.eocOffset, header.eolOffset, header.commandOffset, header.dataOffset]

/-- The file found under one name. Without an outcome, memory outside of the bytes that were
read is used; otherwise there is a view when the header is accepted. -/
def getSavedViewInfo (maxFieldSize : Nat) (file : List UInt8) : Option (Option SavedViewInfo) :=
  let buffer := file.take (min maxFieldSize readLimit)
  let header := readHeader buffer
  if accepts header buffer.length then do
    let buffer ← header.offsets.foldlM terminate buffer
    let newEoc ← stringAt buffer header.eocOffset
    let newEol ← stringAt buffer header.eolOffset
    let newCmd ← stringAt buffer header.commandOffset
    return some (setHeader header newEoc newEol newCmd)
  else return none

/-! The terminators. -/

def marked (offsets : List Int64) (buffer : List UInt8) : List UInt8 :=
  offsets.foldl (fun buffer offset => buffer.set (offset.toInt - 1).toNat 0) buffer

theorem foldlM_terminate {offsets : List Int64} {buffer after : List UInt8} :
    offsets.foldlM terminate buffer = some after ↔
      (∀ offset ∈ offsets, 1 ≤ offset.toInt ∧ offset.toInt ≤ buffer.length) ∧
        after = marked offsets buffer := by
  induction offsets generalizing buffer with
  | nil => simp [marked, eq_comm]
  | cons offset rest ih =>
    rw [List.foldlM_cons, List.forall_mem_cons, terminate]
    by_cases inside : 1 ≤ offset.toInt ∧ offset.toInt ≤ buffer.length
    · rw [if_pos inside, Option.bind_eq_bind, Option.bind_some, ih, List.length_set, and_iff_right inside]
      rfl
    · simp [inside]

/-- A terminator is found where there was one, or where one was put before an offset. -/
theorem getElem?_marked {offsets : List Int64} {buffer : List UInt8} {place : Nat}
    (inside : ∀ offset ∈ offsets, 1 ≤ offset.toInt) :
    (marked offsets buffer)[place]? = some 0 ↔ buffer[place]? = some 0 ∨
      place < buffer.length ∧ (place : Int) + 1 ∈ offsets.map Int64.toInt := by
  induction offsets generalizing buffer with
  | nil => simp [marked]
  | cons offset rest ih =>
    obtain ⟨here, others⟩ := List.forall_mem_cons.mp inside
    have step : marked (offset :: rest) buffer = marked rest (buffer.set (offset.toInt - 1).toNat 0) := rfl
    rw [step, ih others, List.length_set, List.getElem?_set, List.map_cons, List.mem_cons]
    by_cases here_ : (offset.toInt - 1).toNat = place
    · have next : (place : Int) + 1 = offset.toInt := by omega
      by_cases low : place < buffer.length
      · simp [here_, next, low]
      · simp [here_, low]
    · have apart : (place : Int) + 1 ≠ offset.toInt := by omega
      rw [if_neg here_, or_iff_right apart]

/-- There is a terminator from the offset on, of the file or put there. -/
def Ends (offsets : List Int64) (buffer : List UInt8) (offset : Int64) : Prop :=
  ∃ place : Nat, offset.toInt ≤ place ∧ (buffer[place]? = some 0 ∨
    place < buffer.length ∧ (place : Int) + 1 ∈ offsets.map Int64.toInt)

theorem isSome_stringAt {offsets : List Int64} {buffer : List UInt8} {offset : Int64}
    (inside : ∀ offset ∈ offsets, 1 ≤ offset.toInt) (positive : 0 ≤ offset.toInt) :
    (stringAt (marked offsets buffer) offset).isSome ↔ Ends offsets buffer offset := by
  have found : (0 : UInt8) ∈ (marked offsets buffer).drop offset.toInt.toNat ↔ Ends offsets buffer offset := by
    rw [List.mem_iff_getElem?]
    constructor
    · rintro ⟨i, here⟩
      rw [List.getElem?_drop] at here
      exact ⟨_, by omega, (getElem?_marked inside).mp here⟩
    · rintro ⟨place, behind, here⟩
      refine ⟨place - offset.toInt.toNat, ?_⟩
      rw [List.getElem?_drop, Nat.add_sub_cancel' (by omega)]
      exact (getElem?_marked inside).mpr here
  unfold stringAt
  rw [← found]
  split
  · next both => exact iff_of_true rfl both.2
  · next neither => exact iff_of_false (by simp) fun member => neither ⟨positive, member⟩

/-- What an accepted header has to be like. -/
structure Harmless (header : SaveFileHeader) (buffer : List UInt8) : Prop where
  inside : ∀ offset ∈ header.offsets, 1 ≤ offset.toInt ∧ offset.toInt ≤ buffer.length
  ends : ∀ offset ∈ [header.eocOffset, header.eolOffset, header.commandOffset],
    Ends header.offsets buffer offset

/-- A file is harmless if and only if each offset of a header that is accepted lies in the bytes
that were read, and each string ends there. -/
theorem getSavedViewInfo_safe_iff (maxFieldSize : Nat) (file : List UInt8) :
    ((getSavedViewInfo maxFieldSize file).isSome ↔
      (accepts (readHeader (file.take (min maxFieldSize readLimit)))
          (file.take (min maxFieldSize readLimit)).length = true →
        Harmless (readHeader (file.take (min maxFieldSize readLimit)))
          (file.take (min maxFieldSize readLimit)))) ∧
    ((file.take (min maxFieldSize readLimit)).length < 56 →
      getSavedViewInfo maxFieldSize file = some none) := by
  unfold getSavedViewInfo
  dsimp only
  generalize file.take (min maxFieldSize readLimit) = buffer
  constructor
  · by_cases accepted : accepts (readHeader buffer) buffer.length = true
    swap
    · simp [accepted]
    generalize readHeader buffer = header at accepted ⊢
    rw [if_pos accepted, imp_iff_right accepted]
    cases ran : header.offsets.foldlM terminate buffer with
    | none =>
      refine iff_of_false (by simp) fun harmless => ?_
      cases ran.symm.trans (foldlM_terminate.mpr ⟨harmless.inside, rfl⟩)
    | some after =>
      obtain ⟨inside, rfl⟩ := foldlM_terminate.mp ran
      have low : ∀ offset ∈ header.offsets, 1 ≤ offset.toInt :=
        fun offset member => (inside offset member).1
      have strings : ((stringAt (marked header.offsets buffer) header.eocOffset).isSome ∧
          (stringAt (marked header.offsets buffer) header.eolOffset).isSome ∧
          (stringAt (marked header.offsets buffer) header.commandOffset).isSome) ↔
          ∀ offset ∈ [header.eocOffset, header.eolOffset, header.commandOffset],
            Ends header.offsets buffer offset := by
        have each : ∀ offset ∈ header.offsets,
            ((stringAt (marked header.offsets buffer) offset).isSome ↔ Ends header.offsets buffer offset) :=
          fun offset member => isSome_stringAt low (by have := low offset member; omega)
        rw [each _ (by simp [SaveFileHeader.offsets]), each _ (by simp [SaveFileHeader.offsets]),
          each _ (by simp [SaveFileHeader.offsets])]
        simp
      refine Iff.trans ?_ ⟨fun ends => ⟨inside, ends⟩, Harmless.ends⟩
      rw [← strings]
      rw [Option.bind_eq_bind, Option.bind_some]
      generalize marked header.offsets buffer = after
      cases stringAt after header.eocOffset <;> cases stringAt after header.eolOffset <;>
        cases stringAt after header.commandOffset <;> simp
  · intro short
    have unread : readHeader buffer = .empty := if_neg (by omega)
    have refused : accepts .empty buffer.length = false := by simp [accepts, SaveFileHeader.empty]
    simp only [unread, refused]
    rfl

theorem getSavedViewInfo_negative :
    getSavedViewInfo 4096 (SaveFileHeader.bytes ⟨1, -56, 57, 57, 57, 0, 0⟩) = none := by
  decide

/-! The header that `Find_SavedView` makes for a new file, with the time that generating it took. -/

section

variable (cmdstr eocMarker eolMarker : List UInt8) (endTime generationTime : UInt64)

def eocPlace : Nat := 57 + cmdstr.length + 1

def eolPlace : Nat := eocPlace cmdstr + eocMarker.length + 1

def dataPlace : Nat := eolPlace cmdstr eocMarker + eolMarker.length + 1

def newHeader : SaveFileHeader where
  type := 2
  commandOffset := 57
  eocOffset := .ofNat (eocPlace cmdstr)
  eolOffset := .ofNat (eolPlace cmdstr eocMarker)
  dataOffset := .ofNat (dataPlace cmdstr eocMarker eolMarker)
  lastSample := endTime
  generationTime := generationTime

def writeHeader (info : SavedViewInfo) : List UInt8 :=
  info.svh.bytes ++ 58 :: (info.originalCmd ++ 58 :: (info.eocMarker ++ 58 :: (info.eolMarker ++ [58])))

def newInfo : SavedViewInfo :=
  setHeader (newHeader cmdstr eocMarker eolMarker endTime generationTime) eocMarker eolMarker cmdstr

variable {cmdstr eocMarker eolMarker endTime generationTime}

theorem length_bytes (header : SaveFileHeader) : header.bytes.length = 56 :=
  LittleEndian.length_writeWords _

theorem readHeader_bytes (header : SaveFileHeader) (rest : List UInt8) :
    readHeader (header.bytes ++ rest) = header := by
  rw [readHeader, if_pos (by simp [length_bytes])]
  exact congrArg SaveFileHeader.ofWords (LittleEndian.readWords_writeWords header.words rest)

theorem toInt_ofNat {place : Nat} (fits : place < 2 ^ 63) : (Int64.ofNat place).toInt = place :=
  Int64.toInt_ofNat_of_lt fits

theorem set_colon (before after : List UInt8) {place : Nat} (here : place = before.length) :
    (before ++ 58 :: after).set place 0 = before ++ 0 :: after := by
  subst here
  simp

theorem stringAt_ended {before string after : List UInt8} {offset : Int64}
    (here : offset.toInt = before.length) (ended : 0 ∉ string) :
    stringAt (before ++ (string ++ 0 :: after)) offset = some string := by
  have place : offset.toInt.toNat = before.length := by omega
  rw [stringAt, place, List.drop_left, CString.upToNul_append_nul, CString.upToNul_eq ended]
  exact if_pos ⟨by omega, by simp⟩

theorem svh_newInfo : (newInfo cmdstr eocMarker eolMarker endTime generationTime).svh =
    newHeader cmdstr eocMarker eolMarker endTime generationTime := by
  simp [newInfo, setHeader, newHeader]

def fileOf (header : SaveFileHeader) (cmdstr eocMarker eolMarker rest : List UInt8)
    (first second third last : UInt8) : List UInt8 :=
  header.bytes ++ first :: (cmdstr ++ second :: (eocMarker ++ third :: (eolMarker ++ last :: rest)))

theorem length_fileOf (header : SaveFileHeader) (rest : List UInt8) (first second third last : UInt8) :
    (fileOf header cmdstr eocMarker eolMarker rest first second third last).length =
      dataPlace cmdstr eocMarker eolMarker + rest.length := by
  simp only [fileOf, dataPlace, eolPlace, eocPlace, length_append, length_cons, length_bytes]
  omega

theorem writeHeader_append (report : List UInt8) :
    writeHeader (newInfo cmdstr eocMarker eolMarker endTime generationTime) ++ report =
      fileOf (newHeader cmdstr eocMarker eolMarker endTime generationTime) cmdstr eocMarker
        eolMarker report 58 58 58 58 := by
  rw [writeHeader, svh_newInfo]
  simp [newInfo, setHeader, fileOf]

section

variable (fits : dataPlace cmdstr eocMarker eolMarker < 2 ^ 63)
include fits

theorem places : let header := newHeader cmdstr eocMarker eolMarker endTime generationTime
    header.commandOffset.toInt = 57 ∧ header.eocOffset.toInt = eocPlace cmdstr ∧
      header.eolOffset.toInt = eolPlace cmdstr eocMarker ∧
      header.dataOffset.toInt = dataPlace cmdstr eocMarker eolMarker := by
  have last := fits
  unfold dataPlace at last
  have third : eolPlace cmdstr eocMarker < 2 ^ 63 := by omega
  have second : eocPlace cmdstr < 2 ^ 63 := by
    unfold eolPlace at third
    omega
  exact ⟨rfl, toInt_ofNat second, toInt_ofNat third, toInt_ofNat fits⟩

theorem marked_fileOf (rest : List UInt8) :
    let header := newHeader cmdstr eocMarker eolMarker endTime generationTime
    marked header.offsets (fileOf header cmdstr eocMarker eolMarker rest 58 58 58 58) =
      fileOf header cmdstr eocMarker eolMarker rest 0 0 0 0 := by
  intro header
  obtain ⟨command, eoc, eol, data⟩ : header.commandOffset.toInt = 57 ∧
      header.eocOffset.toInt = eocPlace cmdstr ∧
      header.eolOffset.toInt = eolPlace cmdstr eocMarker ∧
      header.dataOffset.toInt = dataPlace cmdstr eocMarker eolMarker := places fits
  have bytes := length_bytes header
  have setEoc : (fileOf header cmdstr eocMarker eolMarker rest 58 58 58 58).set
      (header.eocOffset.toInt - 1).toNat 0 = fileOf header cmdstr eocMarker eolMarker rest 58 0 58 58 := by
    have place : (header.eocOffset.toInt - 1).toNat = (header.bytes ++ 58 :: cmdstr).length := by
      simp only [eoc, eocPlace, length_append, length_cons]
      omega
    simpa only [fileOf, append_assoc, cons_append] using
      set_colon (header.bytes ++ 58 :: cmdstr) (eocMarker ++ 58 :: (eolMarker ++ 58 :: rest)) place
  have setEol : (fileOf header cmdstr eocMarker eolMarker rest 58 0 58 58).set
      (header.eolOffset.toInt - 1).toNat 0 = fileOf header cmdstr eocMarker eolMarker rest 58 0 0 58 := by
    have place : (header.eolOffset.toInt - 1).toNat =
        (header.bytes ++ 58 :: (cmdstr ++ 0 :: eocMarker)).length := by
      simp only [eol, eolPlace, eocPlace, length_append, length_cons]
      omega
    simpa only [fileOf, append_assoc, cons_append] using
      set_colon (header.bytes ++ 58 :: (cmdstr ++ 0 :: eocMarker)) (eolMarker ++ 58 :: rest) place
  have setCommand : (fileOf header cmdstr eocMarker eolMarker rest 58 0 0 58).set
      (header.commandOffset.toInt - 1).toNat 0 = fileOf header cmdstr eocMarker eolMarker rest 0 0 0 58 :=
    set_colon header.bytes _ (by rw [command, bytes]; rfl)
  have setData : (fileOf header cmdstr eocMarker eolMarker rest 0 0 0 58).set
      (header.dataOffset.toInt - 1).toNat 0 = fileOf header cmdstr eocMarker eolMarker rest 0 0 0 0 := by
    have place : (header.dataOffset.toInt - 1).toNat =
        (header.bytes ++ 0 :: (cmdstr ++ 0 :: (eocMarker ++ 0 :: eolMarker))).length := by
      simp only [data, dataPlace, eolPlace, eocPlace, length_append, length_cons]
      omega
    simpa only [fileOf, append_assoc, cons_append] using
      set_colon (header.bytes ++ 0 :: (cmdstr ++ 0 :: (eocMarker ++ 0 :: eolMarker))) rest place
  rw [marked, SaveFileHeader.offsets, foldl_cons, foldl_cons, foldl_cons,
    foldl_cons, List.foldl_nil, setEoc, setEol, setCommand, setData]

theorem strings_fileOf (command : 0 ∉ cmdstr) (eoc : 0 ∉ eocMarker) (eol : 0 ∉ eolMarker)
    (rest : List UInt8) : let header := newHeader cmdstr eocMarker eolMarker endTime generationTime
    let buffer := fileOf header cmdstr eocMarker eolMarker rest 0 0 0 0
    stringAt buffer header.eocOffset = some eocMarker ∧
      stringAt buffer header.eolOffset = some eolMarker ∧
      stringAt buffer header.commandOffset = some cmdstr := by
  intro header buffer
  obtain ⟨commandAt, eocAt, eolAt, -⟩ : header.commandOffset.toInt = 57 ∧
      header.eocOffset.toInt = eocPlace cmdstr ∧
      header.eolOffset.toInt = eolPlace cmdstr eocMarker ∧ _ := places fits
  have bytes := length_bytes header
  refine ⟨?_, ?_, ?_⟩
  · have place : header.eocOffset.toInt = (header.bytes ++ 0 :: (cmdstr ++ [0])).length := by
      simp only [eocAt, eocPlace, length_append, length_cons, List.length_nil]
      omega
    simpa only [buffer, fileOf, append_assoc, cons_append, nil_append] using
      @stringAt_ended _ _ (eolMarker ++ 0 :: rest) _ place eoc
  · have place : header.eolOffset.toInt =
        (header.bytes ++ 0 :: (cmdstr ++ 0 :: (eocMarker ++ [0]))).length := by
      simp only [eolAt, eolPlace, eocPlace, length_append, length_cons, List.length_nil]
      omega
    simpa only [buffer, fileOf, append_assoc, cons_append, nil_append] using
      @stringAt_ended _ _ rest _ place eol
  · have place : header.commandOffset.toInt = (header.bytes ++ [0]).length := by
      rw [commandAt, length_append, bytes]
      rfl
    simpa only [buffer, fileOf, append_assoc, cons_append, nil_append] using
      @stringAt_ended _ _ (eocMarker ++ 0 :: (eolMarker ++ 0 :: rest)) _ place command

theorem accepts_newHeader (num : Nat) :
    accepts (newHeader cmdstr eocMarker eolMarker endTime generationTime) num = true ↔
      56 + dataPlace cmdstr eocMarker eolMarker ≤ num := by
  simp only [accepts, newHeader, or_true, decide_true, Bool.true_and, decide_eq_true_eq, UInt64.toNat_add]
  change (56 + (UInt64.ofNat _).toNat) % 2 ^ 64 ≤ num ↔ _
  rw [UInt64.toNat_ofNat', Nat.mod_eq_of_lt (a := dataPlace _ _ _) (by omega), Nat.mod_eq_of_lt (by omega)]

end

theorem fileOf_append (header : SaveFileHeader) (rest : List UInt8) :
    fileOf header cmdstr eocMarker eolMarker rest 58 58 58 58 =
      fileOf header cmdstr eocMarker eolMarker [] 58 58 58 58 ++ rest := by
  simp [fileOf]

theorem take_fileOf (header : SaveFileHeader) (rest : List UInt8) {limit : Nat}
    (room : dataPlace cmdstr eocMarker eolMarker ≤ limit) :
    (fileOf header cmdstr eocMarker eolMarker rest 58 58 58 58).take limit =
      fileOf header cmdstr eocMarker eolMarker
        (rest.take (limit - dataPlace cmdstr eocMarker eolMarker)) 58 58 58 58 := by
  have length : (fileOf header cmdstr eocMarker eolMarker [] 58 58 58 58).length =
      dataPlace cmdstr eocMarker eolMarker := length_fileOf header [] 58 58 58 58
  rw [fileOf_append, List.take_append, List.take_of_length_le (by omega), length, ← fileOf_append]

theorem readHeader_take (header : SaveFileHeader) (rest : List UInt8) {limit : Nat}
    (room : 56 ≤ limit) : readHeader ((header.bytes ++ rest).take limit) = header := by
  rw [List.take_append, List.take_of_length_le (by rw [length_bytes]; exact room)]
  exact readHeader_bytes header _

theorem getSavedViewInfo_refused {maxFieldSize : Nat} {file : List UInt8}
    (refused : accepts (readHeader (file.take (min maxFieldSize readLimit)))
      (file.take (min maxFieldSize readLimit)).length = false) :
    getSavedViewInfo maxFieldSize file = some none := by
  simp only [getSavedViewInfo, refused]
  rfl

/-- A view is restored if and only if the report has the size of a header, which must fit behind
the offset of the report as well. -/
theorem savedView_roundTrip_iff {maxFieldSize : Nat} {report : List UInt8}
    (size : maxFieldSize < 2 ^ 63) (fits : dataPlace cmdstr eocMarker eolMarker ≤ maxFieldSize)
    (command : 0 ∉ cmdstr) (eoc : 0 ∉ eocMarker) (eol : 0 ∉ eolMarker) :
    (getSavedViewInfo maxFieldSize
        (writeHeader (newInfo cmdstr eocMarker eolMarker endTime generationTime) ++ report) =
          some (some (newInfo cmdstr eocMarker eolMarker endTime generationTime)) ∧
      (writeHeader (newInfo cmdstr eocMarker eolMarker endTime generationTime) ++ report).drop
        (newInfo cmdstr eocMarker eolMarker endTime generationTime).svh.dataOffset.toInt.toNat = report) ↔
    56 ≤ report.length ∧ 56 + dataPlace cmdstr eocMarker eolMarker ≤ min maxFieldSize readLimit := by
  have small : dataPlace cmdstr eocMarker eolMarker < 2 ^ 63 := by omega
  obtain ⟨commandAt, eocAt, eolAt, dataAt⟩ :=
    @places cmdstr eocMarker eolMarker endTime generationTime small
  rw [writeHeader_append, svh_newInfo, dataAt]
  generalize same : newHeader cmdstr eocMarker eolMarker endTime generationTime = header at *
  have length := @length_fileOf cmdstr eocMarker eolMarker header report 58 58 58 58
  have accepted := @accepts_newHeader cmdstr eocMarker eolMarker endTime generationTime small
  rw [same] at accepted
  constructor
  · rintro ⟨restored, -⟩
    by_contra short
    suffices refused : accepts (readHeader ((fileOf header cmdstr eocMarker eolMarker report
        58 58 58 58).take (min maxFieldSize readLimit))) ((fileOf header cmdstr eocMarker eolMarker
        report 58 58 58 58).take (min maxFieldSize readLimit)).length = false by
      cases (getSavedViewInfo_refused refused).symm.trans restored
    rw [List.length_take, length]
    by_cases whole : 56 ≤ min maxFieldSize readLimit
    · rw [fileOf, readHeader_take header _ whole, Bool.eq_false_iff, Ne, accepted]
      omega
    · rw [readHeader, if_neg (by rw [List.length_take]; omega)]
      rfl
  · rintro ⟨long, room⟩
    refine ⟨?_, ?_⟩
    · have read := @take_fileOf cmdstr eocMarker eolMarker header report
        (min maxFieldSize readLimit) (by omega)
      generalize taken : report.take _ = rest at read
      have longRest : 56 ≤ rest.length := by
        rw [← taken, List.length_take]
        omega
      have lengthRead := @length_fileOf cmdstr eocMarker eolMarker header rest 58 58 58 58
      have accepts_ : accepts header
          (fileOf header cmdstr eocMarker eolMarker rest 58 58 58 58).length = true :=
        (accepted _).mpr (by omega)
      have head : readHeader (fileOf header cmdstr eocMarker eolMarker rest 58 58 58 58) = header :=
        readHeader_bytes header _
      have inside : ∀ offset ∈ header.offsets, 1 ≤ offset.toInt ∧ offset.toInt ≤
          (fileOf header cmdstr eocMarker eolMarker rest 58 58 58 58).length := by
        unfold dataPlace eolPlace eocPlace at *
        simp only [SaveFileHeader.offsets, List.forall_mem_cons, lengthRead]
        refine ⟨?_, ?_, ?_, ?_, by simp⟩ <;> omega
      have ran := foldlM_terminate.mpr ⟨inside, rfl⟩
      have marks := @marked_fileOf cmdstr eocMarker eolMarker endTime generationTime small rest
      obtain ⟨eocRead, eolRead, commandRead⟩ := @strings_fileOf cmdstr eocMarker eolMarker endTime
        generationTime small command eoc eol rest
      rw [same] at marks eocRead eolRead commandRead
      rw [marks] at ran
      simp only [getSavedViewInfo, read, head, accepts_, ran, eocRead, eolRead, commandRead, newInfo,
        same, if_true, Option.bind_eq_bind, Option.bind_some]
      rfl
    · rw [fileOf_append]
      exact List.drop_left' (length_fileOf header [] 58 58 58 58)

end

theorem savedView_roundTrip_iff_line :
    (getSavedViewInfo 4096 (writeHeader (newInfo [101] [32] [10] 7 9) ++ [10]) =
        some (some (newInfo [101] [32] [10] 7 9)) ∧
      (writeHeader (newInfo [101] [32] [10] 7 9) ++ [10]).drop
        (newInfo [101] [32] [10] 7 9).svh.dataOffset.toInt.toNat = [10]) ↔
    56 ≤ [10].length ∧ 56 + dataPlace [101] [32] [10] ≤ min 4096 readLimit :=
  savedView_roundTrip_iff (by decide) (by decide) (by decide) (by decide) (by decide)

theorem savedView_lost :
    getSavedViewInfo 4096 (writeHeader (newInfo [101] [32] [10] 7 9) ++ [10]) ≠
      some (some (newInfo [101] [32] [10] 7 9)) := by
  decide

end OpenSpeedShop.SavedViewFiles
