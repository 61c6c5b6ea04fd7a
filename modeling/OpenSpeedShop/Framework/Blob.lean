import OpenSpeedShop.Library.Runs
import Mathlib.Data.Finset.Card

/-!
Binary large objects and the buffers that they own. The address of a new buffer
is any that no buffer has at the time, so an address can come back.
-/

open Function (update update_self update_of_ne update_idem update_eq_self)

namespace OpenSpeedShop

namespace BlobBuffers

structure Blob where
  dmSize : UInt32
  dmContents : Option Nat
deriving DecidableEq, Inhabited

def Blob.isEmpty (blob : Blob) : Bool := blob.dmSize == 0 || blob.dmContents.isNone

/-- The XDR procedure and its data: the bytes that it encodes into a buffer of a given size,
when they fit. -/
def Xdrproc := (size : UInt32) → Option { encoding : List UInt8 // encoding.length ≤ size.toNat }

/-- The places that hold a blob, and the buffers that are allocated, with the bytes that have been
written to them. `fault` tells that a buffer was used which is not allocated. -/
structure Heap where
  constructed : Finset Nat
  value : Nat → Blob
  buffers : Nat → Option (List UInt8)
  fault : Bool

namespace Heap

def initial : Heap := ⟨∅, default, fun _ => none, false⟩

def construct (heap : Heap) (self : Nat) : Heap :=
  { heap with
    constructed := insert self heap.constructed
    value := Function.update heap.value self ⟨0, none⟩ }

def delete (heap : Heap) (contents : Option Nat) : Heap :=
  match contents with
  | none => heap
  | some address =>
    match heap.buffers address with
    | none => { heap with fault := true }
    | some _ => { heap with buffers := Function.update heap.buffers address none }

def read (heap : Heap) (blob : Blob) : Option (List UInt8) := do
  let bytes ← heap.buffers (← blob.dmContents)
  if blob.dmSize.toNat ≤ bytes.length then some (bytes.take blob.dmSize.toNat) else none

def hold (heap : Heap) (self : Nat) (size : UInt32) (address : Nat) (bytes : List UInt8) : Option Heap :=
  match heap.buffers address with
  | some _ => none
  | none => some { heap with
      value := Function.update heap.value self ⟨size, some address⟩
      buffers := Function.update heap.buffers address (some bytes) }

def copyContents (heap : Heap) (self : Nat) (other : Blob) (address : Nat) : Option Heap :=
  match heap.read other with
  | none => some { heap with fault := true }
  | some bytes => heap.hold self other.dmSize address bytes

def copy (heap : Heap) (self other address : Nat) : Option Heap :=
  if (heap.value other).dmSize > 0 ∧ (heap.value other).dmContents ≠ none then
    (heap.construct self).copyContents self (heap.value other) address
  else some (heap.construct self)

def fromContents (heap : Heap) (self : Nat) (size : UInt32) (contents : Option (List UInt8))
    (address : Nat) : Option Heap :=
  match contents with
  | none => some (heap.construct self)
  | some bytes =>
    if size > 0 then (heap.construct self).hold self size address (bytes.take size.toNat)
    else some (heap.construct self)

/-- The loop of the constructor from an XDR encoding. It ends with the first buffer that is
large enough; the others are deleted at once. -/
def encode (xdrproc : Xdrproc) (self : Nat) : List Nat → UInt32 → Heap → Option Heap
  | [], _, _ => none
  | address :: rest, size, heap =>
    match xdrproc size with
    | some encoding =>
      heap.hold self (UInt32.ofNat encoding.val.length) address encoding.val
    | none =>
      match heap.buffers address with
      | some _ => none
      | none =>
        encode xdrproc self rest (size * 2)
          ({ heap with buffers := Function.update heap.buffers address (some []) }.delete (some address))

def destroy (heap : Heap) (self : Nat) : Heap :=
  { heap.delete (heap.value self).dmContents with constructed := heap.constructed.erase self }

def assign (heap : Heap) (self other address : Nat) : Option Heap :=
  if (heap.value self).dmSize ≠ (heap.value other).dmSize ∨
      (heap.value self).dmContents ≠ (heap.value other).dmContents then
    if (heap.value other).dmSize > 0 ∧ (heap.value other).dmContents ≠ none then
      (heap.delete (heap.value self).dmContents).copyContents self (heap.value other) address
    else some (heap.delete (heap.value self).dmContents)
  else some heap

end Heap

inductive Step
  | construct (self : Nat)
  | copy (self other address : Nat)
  | fromContents (self : Nat) (size : UInt32) (contents : Option (List UInt8)) (address : Nat)
  | fromXDR (self : Nat) (xdrproc : Xdrproc) (addresses : List Nat)
  | assign (self other address : Nat)
  | destroy (self : Nat)

/-- A program constructs where there is no blob and uses blobs that are constructed. It passes
pointers to as many bytes as it says. -/
def step (heap : Heap) : Step → Option Heap
  | .construct self => if self ∈ heap.constructed then none else some (heap.construct self)
  | .copy self other address =>
    if self ∉ heap.constructed ∧ other ∈ heap.constructed then heap.copy self other address
    else none
  | .fromContents self size contents address =>
    if self ∉ heap.constructed ∧ contents.all fun bytes => size.toNat ≤ bytes.length then
      heap.fromContents self size contents address
    else none
  | .fromXDR self xdrproc addresses =>
    if self ∈ heap.constructed then none
    else Heap.encode xdrproc self addresses 1024 (heap.construct self)
  | .assign self other address =>
    if self ∈ heap.constructed ∧ other ∈ heap.constructed then heap.assign self other address
    else none
  | .destroy self => if self ∈ heap.constructed then some (heap.destroy self) else none

end BlobBuffers

/-!
Blobs have value semantics, except where an empty blob is assigned to one that
has a buffer.
-/

namespace BlobBuffers

namespace Heap

def bytes (heap : Heap) (blob : Blob) : Option (List UInt8) :=
  if blob.dmContents.isNone ∧ blob.dmSize = 0 then some [] else heap.read blob

def values (heap : Heap) (place : Nat) : Option (List UInt8) :=
  if place ∈ heap.constructed then heap.bytes (heap.value place) else none

structure Owned (heap : Heap) : Prop where
  sound : heap.fault = false
  readable : ∀ place ∈ heap.constructed, (heap.bytes (heap.value place)).isSome
  apart : ∀ first ∈ heap.constructed, ∀ second ∈ heap.constructed, first ≠ second →
    ∀ address, (heap.value first).dmContents = some address → (heap.value second).dmContents ≠ some address

variable {heap : Heap}

theorem bytes_null (size : UInt32) : heap.bytes ⟨size, none⟩ = if size = 0 then some [] else none := by
  simp [bytes, read]

theorem bytes_buffer (size : UInt32) (address : Nat) :
    heap.bytes ⟨size, some address⟩ = (heap.buffers address).bind fun bytes =>
      if size.toNat ≤ bytes.length then some (bytes.take size.toNat) else none := by
  simp [bytes, read]

theorem bytes_congr {other : Heap} {blob : Blob} (same : ∀ address, blob.dmContents = some address →
      heap.buffers address = other.buffers address) : heap.bytes blob = other.bytes blob := by
  obtain ⟨size, contents⟩ := blob
  cases contents with
  | none => rw [bytes_null, bytes_null]
  | some address => rw [bytes_buffer, bytes_buffer, same address rfl]

theorem isSome_of_bytes {size : UInt32} {address : Nat}
    (readable : (heap.bytes ⟨size, some address⟩).isSome) : (heap.buffers address).isSome := by
  rw [bytes_buffer] at readable
  cases buffer : heap.buffers address with
  | none => simp [buffer] at readable
  | some _ => rfl

theorem length_of_bytes {blob : Blob} {contents : List UInt8}
    (readable : heap.bytes blob = some contents) : contents.length = blob.dmSize.toNat := by
  obtain ⟨size, buffer⟩ := blob
  cases buffer with
  | none =>
    rw [bytes_null, Option.ite_none_right_eq_some] at readable
    obtain ⟨rfl, same⟩ := readable
    cases same
    rfl
  | some address =>
    rw [bytes_buffer] at readable
    obtain ⟨written, -, taken⟩ := Option.bind_eq_some_iff.mp readable
    rw [Option.ite_none_right_eq_some] at taken
    obtain ⟨fits, same⟩ := taken
    cases same
    rw [List.length_take, Nat.min_eq_left fits]

theorem Owned.live (owned : heap.Owned) {place address : Nat} (member : place ∈ heap.constructed)
    (buffer : (heap.value place).dmContents = some address) : (heap.buffers address).isSome := by
  have readable := owned.readable place member
  cases blob : heap.value place with
  | mk size contents =>
    rw [blob] at readable buffer
    cases buffer
    exact isSome_of_bytes readable

theorem values_of_mem {place : Nat} (member : place ∈ heap.constructed) :
    heap.values place = heap.bytes (heap.value place) :=
  if_pos member

theorem bytes_of_isEmpty {blob : Blob} {contents : List UInt8} (empty : blob.isEmpty)
    (readable : heap.bytes blob = some contents) : contents = [] := by
  have length := length_of_bytes readable
  obtain ⟨size, buffer⟩ := blob
  rw [Blob.isEmpty, Bool.or_eq_true, beq_iff_eq] at empty
  cases buffer with
  | none =>
    rw [bytes_null, Option.ite_none_right_eq_some] at readable
    exact (Option.some.inj readable.2).symm
  | some address =>
    rcases empty with rfl | impossible
    · exact List.length_eq_zero_iff.mp length
    · cases impossible

def Serves (heap : Heap) (self : Nat) (buffers : Nat → Option (List UInt8)) : Prop :=
  ∀ other ∈ heap.constructed, other ≠ self → ∀ address,
    (heap.value other).dmContents = some address → buffers address = heap.buffers address

theorem Owned.replace (owned : heap.Owned) {self : Nat} {blob : Blob}
    {buffers : Nat → Option (List UInt8)} {contents : List UInt8} (serves : heap.Serves self buffers)
    (own : ∀ address, blob.dmContents = some address → ∀ other ∈ heap.constructed, other ≠ self →
      (heap.value other).dmContents ≠ some address)
    (reads : bytes { heap with buffers := buffers } blob = some contents) :
    let replaced : Heap :=
      ⟨insert self heap.constructed, update heap.value self blob, buffers, heap.fault⟩
    replaced.Owned ∧ replaced.values = update heap.values self (some contents) := by
  intro replaced
  have here : replaced.bytes (replaced.value self) = some contents := by
    rw [← reads, show replaced.value self = blob from update_self _ _ _]
    exact bytes_congr fun _ _ => rfl
  have there : ∀ other ∈ heap.constructed, other ≠ self →
      replaced.bytes (replaced.value other) = heap.bytes (heap.value other) := by
    intro other member different
    rw [show replaced.value other = heap.value other from update_of_ne different _ _]
    exact bytes_congr (serves other member different)
  refine ⟨⟨owned.sound, fun place member => ?_, fun first one second two different address => ?_⟩,
    funext fun place => ?_⟩
  · by_cases same : place = self
    · rw [same, here]
      rfl
    · have early := Finset.mem_of_mem_insert_of_ne member same
      rw [there place early same]
      exact owned.readable place early
  · by_cases same : first = self
    · subst same
      rw [show replaced.value first = blob from update_self _ _ _,
        show replaced.value second = heap.value second from
          update_of_ne different.symm _ _]
      exact fun buffer => own address buffer second
        (Finset.mem_of_mem_insert_of_ne two different.symm) different.symm
    · rw [show replaced.value first = heap.value first from update_of_ne same _ _]
      have early := Finset.mem_of_mem_insert_of_ne one same
      by_cases again : second = self
      · subst again
        rw [show replaced.value second = blob from update_self _ _ _]
        exact fun buffer shared => own address shared first early same buffer
      · rw [show replaced.value second = heap.value second from update_of_ne again _ _]
        exact owned.apart first early second (Finset.mem_of_mem_insert_of_ne two again) different address
  · by_cases same : place = self
    · rw [same, update_self, values_of_mem (Finset.mem_insert_self _ _), here]
    · rw [update_of_ne same, values, values]
      by_cases member : place ∈ heap.constructed
      · rw [if_pos (Finset.mem_insert_of_mem member), if_pos member, there place member same]
      · rw [if_neg member, if_neg fun early => member (Finset.mem_of_mem_insert_of_ne early same)]

theorem Owned.construct (owned : heap.Owned) (self : Nat) : (heap.construct self).Owned ∧
      (heap.construct self).values = update heap.values self (some []) := by
  refine @Owned.replace heap owned self ⟨0, none⟩ heap.buffers [] ?_ ?_ ?_
  · exact fun _ _ _ _ _ => rfl
  · intro address null
    cases null
  · rw [bytes_null, if_pos rfl]

theorem Owned.delete (owned : heap.Owned) {self : Nat} (member : self ∈ heap.constructed) :
    ∃ freed, heap.delete (heap.value self).dmContents = { heap with buffers := freed } ∧
      heap.Serves self freed ∧
      ∀ address, (heap.value self).dmContents = some address → freed address = none := by
  cases contents : (heap.value self).dmContents with
  | none => exact ⟨heap.buffers, rfl, fun _ _ _ _ _ => rfl, nofun⟩
  | some address =>
    obtain ⟨bytes, buffer⟩ := Option.isSome_iff_exists.mp (owned.live member contents)
    refine ⟨update heap.buffers address none, ?_, ?_, ?_⟩
    · simp only [Heap.delete, buffer]
    · intro other there different used theirs
      refine update_of_ne ?_ _ _
      rintro rfl
      exact owned.apart other there self member different used theirs contents
    · rintro _ ⟨⟩
      exact update_self _ _ _

theorem Owned.hold (owned : heap.Owned) {self address : Nat} {size : UInt32}
    {freed : Nat → Option (List UInt8)} {contents : List UInt8} {next : Heap}
    (member : self ∈ heap.constructed) (serves : heap.Serves self freed)
    (length : contents.length = size.toNat)
    (held : hold { heap with buffers := freed } self size address contents = some next) :
    next.Owned ∧ next.values = update heap.values self (some contents) := by
  rw [Heap.hold] at held
  cases fresh : freed address with
  | some _ => simp [fresh] at held
  | none =>
    simp only [fresh, Option.some.injEq] at held
    subst held
    have replaced := @Owned.replace heap owned self ⟨size, some address⟩
      (update freed address (some contents)) contents ?_ ?_ ?_
    · rwa [Finset.insert_eq_self.mpr member] at replaced
    · intro other there different used theirs
      refine (update_of_ne ?_ _ _).trans (serves other there different used theirs)
      rintro rfl
      have live := owned.live there theirs
      rw [← serves other there different used theirs, fresh] at live
      cases live
    · rintro _ ⟨⟩ other there different theirs
      have live := owned.live there theirs
      rw [← serves other there different address theirs, fresh] at live
      cases live
    · simp only [bytes_buffer, update_self, Option.bind_some]
      rw [if_pos length.ge, List.take_of_length_le length.le]

theorem read_eq_bytes {blob : Blob} (buffer : blob.dmContents ≠ none) : heap.read blob = heap.bytes blob := by
  rw [bytes, if_neg]
  rintro ⟨null, -⟩
  exact buffer (Option.isNone_iff_eq_none.mp null)

theorem Owned.copyContents (owned : heap.Owned) {self address : Nat} {other : Blob}
    {freed : Nat → Option (List UInt8)} {contents : List UInt8} {next : Heap}
    (member : self ∈ heap.constructed) (serves : heap.Serves self freed) (buffer : other.dmContents ≠ none)
    (readable : bytes { heap with buffers := freed } other = some contents)
    (copied : copyContents { heap with buffers := freed } self other address = some next) :
    next.Owned ∧ next.values = update heap.values self (some contents) := by
  simp only [Heap.copyContents, read_eq_bytes buffer, readable] at copied
  exact owned.hold member serves (length_of_bytes readable) copied

def firstEncoding (xdrproc : Xdrproc) : Nat → UInt32 → Option (List UInt8)
  | 0, _ => none
  | tries + 1, size =>
    match xdrproc size with
    | some encoding => some encoding.val
    | none => firstEncoding xdrproc tries (size * 2)

theorem Owned.encode {xdrproc : Xdrproc} {self : Nat} {next : Heap} {addresses : List Nat} :
    ∀ {size : UInt32} {heap : Heap}, heap.Owned → self ∈ heap.constructed →
      encode xdrproc self addresses size heap = some next → next.Owned ∧ next.values =
        update heap.values self (firstEncoding xdrproc addresses.length size) := by
  induction addresses with
  | nil =>
    intro size heap owned member encoded
    cases encoded
  | cons address rest ih =>
    intro size heap owned member encoded
    rw [List.length_cons, firstEncoding]
    rw [Heap.encode] at encoded
    cases fits : xdrproc size with
    | some encoding =>
      simp only [fits] at encoded
      refine @Owned.hold heap owned self address _ heap.buffers encoding.val next member
        (fun _ _ _ _ _ => rfl) ?_ encoded
      have bound := encoding.property
      have largest := size.toNat_lt
      rw [UInt32.toNat_ofNat', Nat.mod_eq_of_lt (by omega)]
    | none =>
      simp only [fits] at encoded
      cases fresh : heap.buffers address with
      | some _ => simp [fresh] at encoded
      | none =>
        have same : update heap.buffers address none = heap.buffers :=
          (congrArg (update heap.buffers address) fresh.symm).trans (update_eq_self _ _)
        simp only [fresh, Heap.delete, update_self, update_idem, same] at encoded
        exact ih owned member encoded

end Heap

def Step.apply (values : Nat → Option (List UInt8)) : Step → Nat → Option (List UInt8)
  | .construct self => Function.update values self (some [])
  | .copy self other _ => Function.update values self (values other)
  | .fromContents self size contents _ =>
    Function.update values self (some ((contents.getD []).take size.toNat))
  | .fromXDR self xdrproc addresses =>
    Function.update values self (Heap.firstEncoding xdrproc addresses.length 1024)
  | .assign self other _ => Function.update values self (values other)
  | .destroy self => Function.update values self none

/-- No buffer is deleted twice or used after it is deleted, and the blobs have the values that
they should have. -/
def Correct (heap : Heap) (input : Step) : Prop :=
  ∀ next, step heap input = some next → next.fault = false ∧ next.values = input.apply heap.values

def Careful (heap : Heap) : Step → Prop
  | .assign self other _ => self ∈ heap.constructed → other ∈ heap.constructed →
      self = other ∨ (heap.value self).dmContents = none ∨ (heap.value other).isEmpty = false
  | _ => True

namespace Heap

variable {heap next : Heap}

theorem owned_initial : Owned initial :=
  ⟨rfl, fun _ member => absurd member (Finset.notMem_empty _),
    fun _ member => absurd member (Finset.notMem_empty _)⟩

theorem isEmpty_iff (blob : Blob) : blob.isEmpty = false ↔ blob.dmSize > 0 ∧ blob.dmContents ≠ none := by
  have positive : blob.dmSize > 0 ↔ blob.dmSize ≠ 0 := UInt32.pos_iff_ne_zero
  rw [positive, Blob.isEmpty]
  cases blob.dmContents <;> simp

theorem bytes_freed {self other : Nat} {freed : Nat → Option (List UInt8)}
    (serves : heap.Serves self freed) (member : other ∈ heap.constructed) (different : other ≠ self) :
    bytes { heap with buffers := freed } (heap.value other) = heap.bytes (heap.value other) :=
  bytes_congr (serves other member different)

theorem Owned.exists_bytes (owned : heap.Owned) {place : Nat} (member : place ∈ heap.constructed) :
    ∃ contents, heap.bytes (heap.value place) = some contents ∧ heap.values place = some contents := by
  obtain ⟨contents, readable⟩ := Option.isSome_iff_exists.mp (owned.readable place member)
  exact ⟨contents, readable, (values_of_mem member).trans readable⟩

variable {self other address : Nat}

theorem Owned.copy (owned : heap.Owned)
    (member : other ∈ heap.constructed) (copied : heap.copy self other address = some next) :
    next.Owned ∧ next.values = update heap.values self (heap.values other) := by
  obtain ⟨contents, readable, value⟩ := owned.exists_bytes member
  obtain ⟨constructed, values⟩ := owned.construct self
  rw [value]
  rw [Heap.copy] at copied
  split at copied
  · rename_i full
    have result := @Owned.copyContents (heap.construct self) constructed self address
      (heap.value other) (heap.construct self).buffers contents next
      (Finset.mem_insert_self _ _) (fun _ _ _ _ _ => rfl) full.2 readable copied
    rwa [values, update_idem] at result
  · rename_i empty
    cases copied
    rw [← isEmpty_iff, Bool.not_eq_false] at empty
    rw [bytes_of_isEmpty empty readable]
    exact ⟨constructed, values⟩

theorem Owned.fromContents (owned : heap.Owned) {self address : Nat} {size : UInt32}
    {contents : Option (List UInt8)} (enough : contents.all fun bytes => size.toNat ≤ bytes.length)
    (made : heap.fromContents self size contents address = some next) : next.Owned ∧ next.values =
      update heap.values self (some ((contents.getD []).take size.toNat)) := by
  obtain ⟨constructed, values⟩ := owned.construct self
  cases contents with
  | none =>
    cases made
    exact ⟨constructed, by simpa using values⟩
  | some bytes =>
    rw [Heap.fromContents] at made
    split at made
    · have fits : size.toNat ≤ bytes.length := by simpa using enough
      have result := @Owned.hold (heap.construct self) constructed self address size
        (heap.construct self).buffers (bytes.take size.toNat) next
        (Finset.mem_insert_self _ _) (fun _ _ _ _ _ => rfl)
        ((List.length_take).trans (Nat.min_eq_left fits)) made
      rwa [values, update_idem] at result
    · rename_i zero
      cases made
      have none : size = 0 := by
        by_contra positive
        exact zero (UInt32.pos_iff_ne_zero.mpr positive)
      subst none
      exact ⟨constructed, by simpa using values⟩

theorem Owned.destroy (owned : heap.Owned) {self : Nat} (member : self ∈ heap.constructed) :
    (heap.destroy self).Owned ∧ (heap.destroy self).values = update heap.values self none := by
  obtain ⟨freed, deleted, serves, -⟩ := owned.delete member
  rw [Heap.destroy, deleted]
  refine ⟨⟨owned.sound, fun place remains => ?_, fun first one second two => ?_⟩,
    funext fun place => ?_⟩
  · obtain ⟨different, there⟩ := Finset.mem_erase.mp remains
    have readable := owned.readable place there
    rw [← bytes_freed serves there different] at readable
    exact readable
  · exact owned.apart first (Finset.mem_of_mem_erase one) second (Finset.mem_of_mem_erase two)
  · by_cases same : place = self
    · rw [same, update_self]
      exact if_neg (Finset.notMem_erase _ _)
    · rw [update_of_ne same]
      by_cases there : place ∈ heap.constructed
      · rw [values_of_mem there, ← bytes_freed serves there same]
        exact if_pos (Finset.mem_erase.mpr ⟨same, there⟩)
      · rw [values, values, if_neg there]
        exact if_neg fun remains => there (Finset.mem_of_mem_erase remains)

theorem Owned.values_of_isEmpty (owned : heap.Owned) {place : Nat}
    (member : place ∈ heap.constructed) (empty : (heap.value place).isEmpty) :
    heap.values place = some [] := by
  obtain ⟨contents, readable, value⟩ := owned.exists_bytes member
  rw [value, bytes_of_isEmpty empty readable]

theorem isEmpty_of_null {blob : Blob} (null : blob.dmContents = none) : blob.isEmpty := by
  simp [Blob.isEmpty, null]

theorem Owned.assign (owned : heap.Owned) (left : self ∈ heap.constructed) (right : other ∈ heap.constructed)
    (careful : Careful heap (.assign self other address))
    (assigned : heap.assign self other address = some next) :
    next.Owned ∧ next.values = update heap.values self (heap.values other) := by
  obtain ⟨contents, readable, value⟩ := owned.exists_bytes right
  rw [Heap.assign] at assigned
  by_cases same : self = other
  · subst same
    rw [if_neg (by simp)] at assigned
    cases assigned
    exact ⟨owned, (update_eq_self _ _).symm⟩
  · split at assigned
    · obtain ⟨freed, deleted, serves, -⟩ := owned.delete left
      split at assigned
      · rename_i full
        rw [deleted] at assigned
        rw [value]
        rw [← bytes_freed serves right (Ne.symm same)] at readable
        exact owned.copyContents left serves full.2 readable assigned
      · rename_i notFull
        rw [← isEmpty_iff, Bool.not_eq_false] at notFull
        have null : (heap.value self).dmContents = none := by
          rcases careful left right with equal | null | full
          · exact absurd equal same
          · exact null
          · rw [notFull] at full
            cases full
        rw [null] at assigned
        cases assigned
        have equal : heap.values other = heap.values self := by
          rw [owned.values_of_isEmpty left (isEmpty_of_null null), owned.values_of_isEmpty right notFull]
        rw [equal]
        exact ⟨owned, (update_eq_self _ _).symm⟩
    · rename_i alike
      cases assigned
      rw [not_or, not_not, not_not] at alike
      have equal : heap.values other = heap.values self := by
        rw [values_of_mem left, values_of_mem right, bytes, bytes, read, read, alike.1, alike.2]
      rw [equal]
      exact ⟨owned, (update_eq_self _ _).symm⟩

theorem Owned.assign_dangles (owned : heap.Owned)
    (left : self ∈ heap.constructed) (right : other ∈ heap.constructed)
    (careless : ¬ Careful heap (.assign self other address)) :
    ∃ next, heap.assign self other address = some next ∧
      next.values ≠ update heap.values self (heap.values other) := by
  simp only [Careful, left, right, forall_const, not_or, Bool.not_eq_false] at careless
  obtain ⟨different, buffer, empty⟩ := careless
  obtain ⟨address, own⟩ := Option.ne_none_iff_exists'.mp buffer
  obtain ⟨freed, deleted, -, gone⟩ := owned.delete left
  have notFull : ¬ ((heap.value other).dmSize > 0 ∧ (heap.value other).dmContents ≠ none) := by
    rw [← isEmpty_iff, Bool.not_eq_false]
    exact empty
  have differ : (heap.value self).dmContents ≠ (heap.value other).dmContents :=
    fun same => owned.apart self left other right different address own (same.symm.trans own)
  refine ⟨{ heap with buffers := freed }, ?_, fun equal => ?_⟩
  · rw [Heap.assign, if_pos (Or.inr differ), if_neg notFull, deleted]
  · have here := congrFun equal self
    rw [update_self, owned.values_of_isEmpty right empty] at here
    have unreadable : values { heap with buffers := freed } self = none := by
      refine (if_pos left).trans ?_
      cases blob : heap.value self with
      | mk size contents =>
        rw [blob] at own gone
        cases own
        simp only [bytes_buffer, gone address rfl, Option.bind_none]
    rw [unreadable] at here
    cases here

end Heap

theorem owned_step {heap next : Heap} {input : Step} (owned : heap.Owned)
    (careful : Careful heap input) (stepped : step heap input = some next) :
    next.Owned ∧ next.values = input.apply heap.values := by
  cases input with
  | construct self =>
    rw [step, Option.ite_none_left_eq_some] at stepped
    obtain ⟨-, same⟩ := stepped
    cases same
    exact owned.construct self
  | copy self other address =>
    rw [step, Option.ite_none_right_eq_some] at stepped
    exact owned.copy stepped.1.2 stepped.2
  | fromContents self size contents address =>
    rw [step, Option.ite_none_right_eq_some] at stepped
    exact owned.fromContents stepped.1.2 stepped.2
  | fromXDR self xdrproc addresses =>
    rw [step, Option.ite_none_left_eq_some] at stepped
    obtain ⟨constructed, values⟩ := owned.construct self
    have result := Heap.Owned.encode constructed (Finset.mem_insert_self _ _) stepped.2
    rwa [values, update_idem] at result
  | assign self other address =>
    rw [step, Option.ite_none_right_eq_some] at stepped
    exact owned.assign stepped.1.1 stepped.1.2 careful stepped.2
  | destroy self =>
    rw [step, Option.ite_none_right_eq_some] at stepped
    obtain ⟨member, same⟩ := stepped
    cases same
    exact owned.destroy member

theorem correct_iff_careful {heap : Heap} (owned : heap.Owned) (input : Step) :
    Correct heap input ↔ Careful heap input := by
  constructor
  · intro correct
    by_contra careless
    cases input with
    | assign self other address =>
      have both : self ∈ heap.constructed ∧ other ∈ heap.constructed := by
        by_contra neither
        exact careless fun left right => absurd ⟨left, right⟩ neither
      obtain ⟨next, assigned, wrong⟩ := owned.assign_dangles both.1 both.2 careless
      exact wrong (correct next (by rw [step, if_pos both, assigned])).2
    | _ => exact careless trivial
  · intro careful next stepped
    obtain ⟨ownedNext, values⟩ := owned_step owned careful stepped
    exact ⟨ownedNext.sound, values⟩

/-- A run keeps blobs as values exactly as long as no empty blob is assigned to another blob that
has a buffer. -/
theorem alongCorrect_iff (steps : List Step) :
    Runs.Along Correct step Heap.initial steps ↔ Runs.Along Careful step Heap.initial steps :=
  Runs.along_iff_along Heap.Owned (fun _ input owned => correct_iff_careful owned input)
    (fun _ _ _ owned careful stepped => (owned_step owned careful stepped).1) Heap.owned_initial

def cleared : List Step :=
  [.fromContents 0 1 (some [65]) 0, .construct 1, .assign 0 1 0]

theorem cleared_notEmpty : ¬ Runs.Along Correct step Heap.initial cleared := by
  intro correct
  have values := (((correct.2 _ rfl).2 _ rfl).1 _ rfl).2
  exact absurd (congrFun values 0) (by decide)

end BlobBuffers

end OpenSpeedShop
