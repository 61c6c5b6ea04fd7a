import Mathlib.Algebra.GroupWithZero.Nat
import OpenSpeedShop.Framework.SmartPtrCore

/-!
The reference counts of smart pointers count the pointers, and an object is
deleted when the last one stops referring to it.
-/

open Function (update_self update_of_ne update)

namespace OpenSpeedShop.SmartPtr

open Finset (mem_of_mem_erase mem_insert mem_erase mem_filter card_pos)
open UInt32 (ofNat)

namespace Heap

def sharing (heap : Heap) (places : Finset Nat) (bookkeeping : Nat) : Finset Nat :=
  places.filter fun place => (heap.value place).dmBookkeeping = bookkeeping

def countOf (sharers : Nat) : Option UInt32 :=
  if sharers = 0 then none else some (UInt32.ofNat sharers)

structure Counted (heap : Heap) (places : Finset Nat) : Prop where
  counts : ∀ bookkeeping, (heap.sharing places bookkeeping).card < 2 ^ 32 ∧
    heap.references bookkeeping = countOf (heap.sharing places bookkeeping).card
  objects : ∀ first ∈ places, ∀ second ∈ places,
    (heap.value first).dmBookkeeping = (heap.value second).dmBookkeeping →
      (heap.value first).dmObject = (heap.value second).dmObject
  bookkeeping : ∀ first ∈ places, ∀ second ∈ places, ∀ object,
    (heap.value first).dmObject = some object → (heap.value second).dmObject = some object →
      (heap.value first).dmBookkeeping = (heap.value second).dmBookkeeping
  created : ∀ place ∈ places, (heap.value place).dmBookkeeping < heap.nextBookkeeping ∧
    ∀ object, (heap.value place).dmObject = some object → object < heap.nextObject
  deleted : ∀ object, heap.deleted.count object =
    if object < heap.nextObject ∧ ∀ place ∈ places, (heap.value place).dmObject ≠ some object
      then 1 else 0

variable {heap : Heap} {places : Finset Nat}

theorem Counted.inside (counted : heap.Counted places) (constructed : Finset Nat)
    (assigning : List (Nat × Nat)) : { heap with
      constructed := constructed
      assigning := assigning }.Counted places :=
  ⟨counted.counts, counted.objects, counted.bookkeeping, counted.created, counted.deleted⟩

variable {sharers : Nat}

theorem ofNat_sub_one (positive : 0 < sharers) : ofNat sharers - 1 = ofNat (sharers - 1) := by
  rw [UInt32.ofNat_sub (by omega)]
  rfl

theorem ofNat_eq_zero (bound : sharers < 2 ^ 32) : ofNat sharers = 0 ↔ sharers = 0 := by
  rw [← UInt32.toNat_inj, UInt32.toNat_ofNat', Nat.mod_eq_of_lt bound]
  rfl

theorem countOf_of_pos (positive : 0 < sharers) : countOf sharers = some (ofNat sharers) :=
  if_neg (by omega)

theorem countOf_succ (positive : 0 < sharers) : countOf (sharers + 1) = some (ofNat sharers + 1) := by
  rw [countOf_of_pos (by omega), UInt32.ofNat_add]
  rfl

theorem sharing_erase (place bookkeeping : Nat) :
    heap.sharing (places.erase place) bookkeeping = (heap.sharing places bookkeeping).erase place :=
  Finset.filter_erase _ _ _

theorem card_sharing_erase_self {place : Nat} (member : place ∈ places) :
    (heap.sharing (places.erase place) (heap.value place).dmBookkeeping).card + 1 =
      (heap.sharing places (heap.value place).dmBookkeeping).card := by
  rw [sharing_erase]
  exact Finset.card_erase_add_one (by simp [sharing, member])

variable {place bookkeeping : Nat}

theorem sharing_erase_of_ne (different : (heap.value place).dmBookkeeping ≠ bookkeeping) :
    heap.sharing (places.erase place) bookkeeping = heap.sharing places bookkeeping := by
  rw [sharing_erase]
  exact Finset.erase_eq_of_notMem (by simp [sharing, different])

theorem sharing_insert_self (same : (heap.value place).dmBookkeeping = bookkeeping) :
    heap.sharing (insert place places) bookkeeping = insert place (heap.sharing places bookkeeping) := by
  rw [sharing, Finset.filter_insert, if_pos same]
  rfl

theorem sharing_insert_of_ne (different : (heap.value place).dmBookkeeping ≠ bookkeeping) :
    heap.sharing (insert place places) bookkeeping = heap.sharing places bookkeeping := by
  rw [sharing, Finset.filter_insert, if_neg different]
  rfl

theorem sharing_update {place : Nat} (absent : place ∉ places) (self : SmartPtr) (bookkeeping : Nat) :
    (heap.write place self).sharing places bookkeeping = heap.sharing places bookkeeping := by
  refine Finset.filter_congr fun other member => ?_
  have different : other ≠ place := fun same => absent (same ▸ member)
  simp [write, update_of_ne different]

structure Keeps (before after : Heap) : Prop where
  constructed : after.constructed = before.constructed
  value : after.value = before.value
  nextObject : after.nextObject = before.nextObject
  nextBookkeeping : after.nextBookkeeping = before.nextBookkeeping
  assigning : after.assigning = before.assigning
  fault : after.fault = before.fault

variable {references : Nat → Option UInt32}

section

variable (counted : heap.Counted places)
include counted

theorem Counted.erase {place : Nat} {deleted : List Nat} (counts : ∀ bookkeeping, references bookkeeping =
      countOf (heap.sharing (places.erase place) bookkeeping).card)
    (deletes : ∀ object, deleted.count object = if object < heap.nextObject ∧
      ∀ other ∈ places.erase place, (heap.value other).dmObject ≠ some object then 1 else 0) :
    { heap with references := references, deleted := deleted }.Counted (places.erase place) where
  counts bookkeeping := by
    refine ⟨?_, counts bookkeeping⟩
    have fewer := Finset.card_le_card
      (Finset.filter_subset_filter (fun place => (heap.value place).dmBookkeeping = bookkeeping)
        (Finset.erase_subset place places))
    exact lt_of_le_of_lt fewer (counted.counts bookkeeping).1
  objects first one second two :=
    counted.objects first (mem_of_mem_erase one) second (mem_of_mem_erase two)
  bookkeeping first one second two :=
    counted.bookkeeping first (mem_of_mem_erase one) second (mem_of_mem_erase two)
  created other member := counted.created other (mem_of_mem_erase member)
  deleted := deletes

theorem Counted.count_deleted_of_mem {place object : Nat}
    (member : place ∈ places) (refers : (heap.value place).dmObject = some object) :
    heap.deleted.count object = 0 := by
  rw [counted.deleted, if_neg]
  rintro ⟨-, none⟩
  exact none place member refers

theorem Counted.no_other {place object : Nat}
    (member : place ∈ places) (refers : (heap.value place).dmObject = some object)
    (last : (heap.sharing (places.erase place) (heap.value place).dmBookkeeping).card = 0) :
    ∀ other ∈ places.erase place, (heap.value other).dmObject ≠ some object := by
  intro other there same
  have shared := counted.bookkeeping other (mem_of_mem_erase there) place member object same refers
  rw [Finset.card_eq_zero] at last
  have impossible : other ∈ heap.sharing (places.erase place) (heap.value place).dmBookkeeping :=
    mem_filter.mpr ⟨there, shared⟩
  rw [last] at impossible
  cases impossible

theorem Counted.exists_other {place : Nat} (member : place ∈ places)
    (more : 0 < (heap.sharing (places.erase place) (heap.value place).dmBookkeeping).card) :
    ∃ other ∈ places.erase place, (heap.value other).dmObject = (heap.value place).dmObject := by
  obtain ⟨other, shares⟩ := card_pos.mp more
  obtain ⟨there, shared⟩ := mem_filter.mp shares
  exact ⟨other, there, counted.objects other (mem_of_mem_erase there) place member shared⟩

theorem Counted.count_deleted_erase {place object : Nat} (others : (heap.value place).dmObject = some object →
      ∃ other ∈ places.erase place, (heap.value other).dmObject = some object) :
    heap.deleted.count object = if object < heap.nextObject ∧
      ∀ other ∈ places.erase place, (heap.value other).dmObject ≠ some object then 1 else 0 := by
  rw [counted.deleted]
  refine if_congr (and_congr_right fun _ => ⟨fun none other there => ?_, fun none other there => ?_⟩)
    rfl rfl
  · exact none other (mem_of_mem_erase there)
  · by_cases same : other = place
    · subst same
      intro refers
      obtain ⟨another, member, again⟩ := others refers
      exact none another member again
    · exact none other (mem_erase.mpr ⟨same, there⟩)

theorem Counted.counts_erase {place : Nat} (bookkeeping : Nat) :
    update heap.references (heap.value place).dmBookkeeping
        (countOf (heap.sharing (places.erase place) (heap.value place).dmBookkeeping).card) bookkeeping =
      countOf (heap.sharing (places.erase place) bookkeeping).card := by
  by_cases same : bookkeeping = (heap.value place).dmBookkeeping
  · rw [same, update_self]
  · rw [update_of_ne same, sharing_erase_of_ne (Ne.symm same)]
    exact (counted.counts bookkeeping).2

theorem Counted.deletes_last {place : Nat} (member : place ∈ places)
    (last : (heap.sharing (places.erase place) (heap.value place).dmBookkeeping).card = 0)
    (object : Nat) : (heap.deleted ++ (heap.value place).dmObject.toList).count object =
      if object < heap.nextObject ∧
        ∀ other ∈ places.erase place, (heap.value other).dmObject ≠ some object then 1 else 0 := by
  rw [List.count_append]
  cases refers : (heap.value place).dmObject with
  | none =>
    have kept := @Counted.count_deleted_erase heap places counted place object (by simp [refers])
    simpa using kept
  | some own =>
    by_cases same : own = object
    · subst same
      rw [counted.count_deleted_of_mem member refers, if_pos]
      · simp
      · exact ⟨(counted.created place member).2 own refers, counted.no_other member refers last⟩
    · have kept := @Counted.count_deleted_erase heap places counted place object (by simp [refers, same])
      simpa [same] using kept

theorem Counted.decrement {place : Nat} (member : place ∈ places) :
    Keeps heap (heap.decrement (heap.value place)).2 ∧
      (heap.decrement (heap.value place)).2.Counted (places.erase place) ∧
      ((heap.decrement (heap.value place)).1 = true ↔
        heap.references (heap.value place).dmBookkeeping = some 1) := by
  have card := @card_sharing_erase_self heap places place member
  have counts := @Counted.counts_erase heap places counted place
  obtain ⟨bound, references⟩ := counted.counts (heap.value place).dmBookkeeping
  have positive : 0 < (heap.sharing places (heap.value place).dmBookkeeping).card := by omega
  rw [countOf_of_pos positive] at references
  have remaining : ofNat (heap.sharing places (heap.value place).dmBookkeeping).card - 1 =
      ofNat (heap.sharing (places.erase place) (heap.value place).dmBookkeeping).card := by
    rw [ofNat_sub_one positive]
    congr 1
    omega
  have zero := @ofNat_eq_zero
    (heap.sharing (places.erase place) (heap.value place).dmBookkeeping).card (by omega)
  simp only [Heap.decrement, references, remaining]
  by_cases last : (heap.sharing (places.erase place) (heap.value place).dmBookkeeping).card = 0
  · rw [if_pos (zero.mpr last)]
    refine ⟨⟨rfl, rfl, rfl, rfl, rfl, rfl⟩, counted.erase (fun bookkeeping => ?_)
      (counted.deletes_last member last), ?_⟩
    · rw [← counts, last]
      rfl
    · have one : (heap.sharing places (heap.value place).dmBookkeeping).card = 1 := by omega
      simp [one]
  · rw [if_neg (mt zero.mp last)]
    refine ⟨⟨rfl, rfl, rfl, rfl, rfl, rfl⟩, counted.erase (fun bookkeeping => ?_) fun object => ?_, ?_⟩
    · rw [← counts, countOf_of_pos (by omega)]
    · refine counted.count_deleted_erase fun refers => ?_
      obtain ⟨other, there, same⟩ := counted.exists_other member (by omega)
      exact ⟨other, there, same.trans refers⟩
    · simp only [Bool.false_eq_true, false_iff, Option.some.injEq]
      intro one
      rw [one] at remaining
      exact last (zero.mp (remaining.symm.trans (by decide)))

end

theorem value_write_of_mem {place other : Nat} (absent : place ∉ places) (member : other ∈ places)
    (self : SmartPtr) : (heap.write place self).value other = heap.value other :=
  update_of_ne (ne_of_mem_of_not_mem member absent) _ _

section

variable (counted : heap.Counted places)
include counted

theorem Counted.write {place : Nat} (absent : place ∉ places)
    (self : SmartPtr) : (heap.write place self).Counted places := by
  have same : ∀ other ∈ places, (heap.write place self).value other = heap.value other :=
    fun other member => value_write_of_mem absent member self
  constructor
  · intro bookkeeping
    rw [sharing_update absent]
    exact counted.counts bookkeeping
  · intro first one second two
    simp only [same first one, same second two]
    exact counted.objects first one second two
  · intro first one second two
    simp only [same first one, same second two]
    exact counted.bookkeeping first one second two
  · intro other member
    simp only [same other member]
    exact counted.created other member
  · intro object
    refine (counted.deleted object).trans (if_congr (and_congr_right fun _ => ?_) rfl rfl)
    refine forall₂_congr fun other member => ?_
    rw [same other member]

theorem Counted.add {place : Nat} {nextObject nextBookkeeping : Nat}
    (grows : heap.nextObject ≤ nextObject ∧ heap.nextBookkeeping ≤ nextBookkeeping)
    (counts : ∀ bookkeeping, (heap.sharing (insert place places) bookkeeping).card < 2 ^ 32 ∧
      references bookkeeping = countOf (heap.sharing (insert place places) bookkeeping).card)
    (shares : ∀ other ∈ places, ((heap.value place).dmBookkeeping = (heap.value other).dmBookkeeping →
        (heap.value place).dmObject = (heap.value other).dmObject) ∧
      ∀ object, (heap.value place).dmObject = some object → (heap.value other).dmObject = some object →
        (heap.value place).dmBookkeeping = (heap.value other).dmBookkeeping)
    (created : (heap.value place).dmBookkeeping < nextBookkeeping ∧
      ∀ object, (heap.value place).dmObject = some object → object < nextObject)
    (deletes : ∀ object, heap.deleted.count object = if object < nextObject ∧
      ∀ other ∈ insert place places, (heap.value other).dmObject ≠ some object then 1 else 0) :
    { heap with
      references := references
      nextObject := nextObject
      nextBookkeeping := nextBookkeeping }.Counted (insert place places) where
  counts := counts
  objects first one second two same := by
    rcases mem_insert.mp one with rfl | early <;>
      rcases mem_insert.mp two with rfl | late
    · rfl
    · exact (shares second late).1 same
    · exact ((shares first early).1 same.symm).symm
    · exact counted.objects first early second late same
  bookkeeping first one second two object refers again := by
    rcases mem_insert.mp one with rfl | early <;>
      rcases mem_insert.mp two with rfl | late
    · rfl
    · exact (shares second late).2 object refers again
    · exact ((shares first early).2 object again refers).symm
    · exact counted.bookkeeping first early second late object refers again
  created other member := by
    rcases mem_insert.mp member with rfl | member
    · exact created
    · obtain ⟨below, object⟩ := counted.created other member
      exact ⟨below.trans_le grows.2, fun number refers => (object number refers).trans_le grows.1⟩
  deleted := deletes

theorem Counted.increment {place other : Nat} (absent : place ∉ places) (member : other ∈ places)
    (same : heap.value place = heap.value other)
    (room : (heap.sharing places (heap.value other).dmBookkeeping).card + 1 < 2 ^ 32) :
    Keeps heap (heap.increment (heap.value other).dmBookkeeping) ∧
      (heap.increment (heap.value other).dmBookkeeping).Counted (insert place places) := by
  obtain ⟨-, references⟩ := counted.counts (heap.value other).dmBookkeeping
  have positive : 0 < (heap.sharing places (heap.value other).dmBookkeeping).card :=
    card_pos.mpr ⟨other, mem_filter.mpr ⟨member, rfl⟩⟩
  have one : (heap.sharing (insert place places) (heap.value other).dmBookkeeping).card =
      (heap.sharing places (heap.value other).dmBookkeeping).card + 1 := by
    rw [sharing_insert_self (congrArg dmBookkeeping same)]
    exact Finset.card_insert_of_notMem fun there => absent (Finset.mem_of_mem_filter place there)
  rw [countOf_of_pos positive] at references
  simp only [Heap.increment, references]
  refine ⟨⟨rfl, rfl, rfl, rfl, rfl, rfl⟩, counted.add ⟨le_rfl, le_rfl⟩ ?_ ?_ ?_ ?_⟩
  · intro bookkeeping
    by_cases here : bookkeeping = (heap.value other).dmBookkeeping
    · rw [here, update_self, one, countOf_succ positive]
      exact ⟨room, rfl⟩
    · have elsewhere : (heap.value place).dmBookkeeping ≠ bookkeeping := by
        rw [same]
        exact fun there => here there.symm
      rw [update_of_ne here, sharing_insert_of_ne elsewhere]
      exact counted.counts bookkeeping
  · intro another there
    rw [same]
    exact ⟨counted.objects other member another there, counted.bookkeeping other member another there⟩
  · rw [same]
    exact counted.created other member
  · intro object
    rw [counted.deleted]
    refine if_congr (and_congr_right fun _ => ?_) rfl rfl
    rw [Finset.forall_mem_insert, same]
    exact ⟨fun none => ⟨none other member, none⟩, And.right⟩

theorem Counted.take {self other : Nat} (absent : self ∉ places) (member : other ∈ places)
    (room : (heap.sharing places (heap.value other).dmBookkeeping).card + 1 < 2 ^ 32) :
    (heap.take self other).constructed = heap.constructed ∧
      (heap.take self other).assigning = heap.assigning ∧ (heap.take self other).fault = heap.fault ∧
      (heap.take self other).Counted (insert self places) := by
  have different : other ≠ self := fun same => absent (same ▸ member)
  have written := counted.write absent (heap.value other)
  have kept : (heap.write self (heap.value other)).value other = heap.value other :=
    update_of_ne different _ _
  have taken : (heap.write self (heap.value other)).value self = heap.value other :=
    update_self _ _ _
  have incremented := written.increment absent member (taken.trans kept.symm)
    (by rwa [kept, sharing_update absent])
  rw [kept] at incremented
  obtain ⟨keeps, counts⟩ := incremented
  exact ⟨keeps.constructed, keeps.assigning, keeps.fault, counts⟩

theorem Counted.sharing_next : heap.sharing places heap.nextBookkeeping = ∅ := by
  refine Finset.filter_eq_empty_iff.mpr fun place member same => ?_
  have below := (counted.created place member).1
  omega

theorem Counted.counts_fresh {self : Nat} (absent : self ∉ places) (isNull : Bool) (bookkeeping : Nat) :
    ((heap.write self (heap.fresh isNull)).sharing (insert self places) bookkeeping).card < 2 ^ 32 ∧
      update heap.references heap.nextBookkeeping (some 1) bookkeeping =
        countOf ((heap.write self (heap.fresh isNull)).sharing (insert self places) bookkeeping).card := by
  have here : (heap.write self (heap.fresh isNull)).value self = heap.fresh isNull :=
    update_self _ _ _
  by_cases next : bookkeeping = heap.nextBookkeeping
  · have one : ((heap.write self (heap.fresh isNull)).sharing (insert self places) bookkeeping).card = 1 := by
      rw [sharing_insert_self (by rw [next, here]; rfl), sharing_update absent, next, counted.sharing_next]
      rfl
    rw [one, next, update_self]
    exact ⟨by decide, rfl⟩
  · have elsewhere : ((heap.write self (heap.fresh isNull)).value self).dmBookkeeping ≠ bookkeeping := by
      rw [here]
      exact fun same => next same.symm
    rw [sharing_insert_of_ne elsewhere, update_of_ne next]
    exact (counted.write absent (heap.fresh isNull)).counts bookkeeping

end

theorem fresh_unused_iff {isNull : Bool} {object : Nat} {unused : Prop} : object < heap.nextObject ∧ unused ↔
      (object < if isNull then heap.nextObject else heap.nextObject + 1) ∧
        (heap.fresh isNull).dmObject ≠ some object ∧ unused := by
  cases isNull with
  | true =>
    constructor
    · rintro ⟨below, unused⟩
      exact ⟨below, nofun, unused⟩
    · rintro ⟨below, -, unused⟩
      exact ⟨below, unused⟩
  | false =>
    constructor
    · rintro ⟨below, unused⟩
      refine ⟨below.trans (Nat.lt_succ_self _), fun own => ?_, unused⟩
      cases own
      exact lt_irrefl _ below
    · rintro ⟨below, own, unused⟩
      refine ⟨lt_of_le_of_ne (Nat.lt_succ_iff.mp below) fun same => own ?_, unused⟩
      rw [same]
      rfl

theorem Counted.construct (counted : heap.Counted places) {self : Nat} (absent : self ∉ places)
    (isNull : Bool) : (heap.construct self isNull).Counted (insert self places) := by
  have written := counted.write absent (heap.fresh isNull)
  have here : (heap.write self (heap.fresh isNull)).value self = heap.fresh isNull :=
    update_self _ _ _
  have grows : heap.nextObject ≤ if isNull then heap.nextObject else heap.nextObject + 1 := by
    split
    · exact le_rfl
    · exact Nat.le_succ _
  refine (written.add ⟨grows, Nat.le_succ _⟩ (counted.counts_fresh absent isNull)
    (fun other member => ?_) ?_ fun object => ?_).inside _ _
  · obtain ⟨below, objects⟩ := counted.created other member
    rw [here, value_write_of_mem absent member]
    refine ⟨fun same => absurd same below.ne', fun object own refers => ?_⟩
    have old := objects object refers
    cases isNull with
    | true => cases own
    | false =>
      cases own
      exact absurd old (lt_irrefl _)
  · rw [here]
    refine ⟨Nat.lt_succ_self _, fun object own => ?_⟩
    cases isNull with
    | true => cases own
    | false =>
      cases own
      exact Nat.lt_succ_self _
  · refine (written.deleted object).trans (if_congr ?_ rfl rfl)
    rw [Finset.forall_mem_insert, here]
    exact fresh_unused_iff

def released (heap : Heap) : List Nat := heap.assigning.map Prod.fst

def settled (heap : Heap) : Finset Nat := heap.constructed \ heap.released.toFinset

/-- Assignments that have begun have smart pointers on both sides, which none that began before
has released. -/
def FramesOk (constructed : Finset Nat) : List (Nat × Nat) → Prop
  | [] => True
  | (self, other) :: rest => self ∈ constructed ∧ other ∈ constructed ∧ self ≠ other ∧
      self ∉ rest.map Prod.fst ∧ other ∉ rest.map Prod.fst ∧ FramesOk constructed rest

structure Ok (heap : Heap) : Prop where
  sound : heap.fault = false
  frames : FramesOk heap.constructed heap.assigning
  counted : heap.Counted heap.settled

def HasRoom (heap : Heap) (self : Nat) : Prop :=
  (heap.sharing heap.settled (heap.value self).dmBookkeeping).card + 1 < 2 ^ 32

instance (heap : Heap) (self : Nat) : Decidable (heap.HasRoom self) :=
  inferInstanceAs (Decidable (_ < _))

def Deletes (heap : Heap) (self : Nat) : Prop :=
  heap.references (heap.value self).dmBookkeeping = some 1 ∧ (heap.value self).dmObject.isSome

end Heap

/-- No step uses a smart pointer whose object is being deleted by an assignment, or destroys the
right-hand side of that assignment; and no count exceeds its type. -/
def Careful (heap : Heap) : Step → Prop
  | .construct _ _ => True
  | .copy _ other => other ∉ heap.released ∧ heap.HasRoom other
  | .assign self other => self ∉ heap.released ∧ other ∉ heap.released ∧
      ((heap.value self).dmObject ≠ (heap.value other).dmObject → ¬ heap.Deletes self → heap.HasRoom other)
  | .finishAssign => ∀ frame ∈ heap.assigning.head?, heap.HasRoom frame.2
  | .destroy self => self ∉ heap.released ∧ self ∉ heap.assigning.map Prod.snd

namespace Heap

variable {heap : Heap}

theorem mem_settled {place : Nat} :
    place ∈ heap.settled ↔ place ∈ heap.constructed ∧ place ∉ heap.released := by
  simp [settled]

theorem FramesOk.mono {constructed larger : Finset Nat} (subset : constructed ⊆ larger) :
    ∀ {frames : List (Nat × Nat)}, FramesOk constructed frames → FramesOk larger frames := by
  intro frames
  induction frames with
  | nil => exact fun ok => ok
  | cons frame rest ih =>
    rintro ⟨self, other, different, notSelf, notOther, ok⟩
    exact ⟨subset self, subset other, different, notSelf, notOther, ih ok⟩

theorem FramesOk.erase {constructed : Finset Nat} {place : Nat} :
    ∀ {frames : List (Nat × Nat)}, FramesOk constructed frames → place ∉ frames.map Prod.fst →
      place ∉ frames.map Prod.snd → FramesOk (constructed.erase place) frames := by
  intro frames
  induction frames with
  | nil => exact fun ok _ _ => ok
  | cons frame rest ih =>
    rintro ⟨self, other, different, notSelf, notOther, ok⟩ notLeft notRight
    rw [List.map_cons, List.mem_cons, not_or] at notLeft notRight
    refine ⟨mem_erase.mpr ⟨Ne.symm notLeft.1, self⟩,
      mem_erase.mpr ⟨Ne.symm notRight.1, other⟩, different, notSelf, notOther,
      ih ok notLeft.2 notRight.2⟩

theorem FramesOk.released {constructed : Finset Nat} :
    ∀ {frames : List (Nat × Nat)}, FramesOk constructed frames →
      ∀ place ∈ frames.map Prod.fst, place ∈ constructed := by
  intro frames
  induction frames with
  | nil => simp
  | cons frame rest ih =>
    rintro ⟨self, -, -, -, -, ok⟩ place member
    rcases List.mem_cons.mp member with rfl | later
    · exact self
    · exact ih ok place later

theorem ok_initial : Ok initial := by
  refine ⟨rfl, trivial, fun bookkeeping => ?_, ?_, ?_, ?_, fun object => ?_⟩
  · exact ⟨by simp [sharing, settled, initial], by simp [sharing, settled, initial, countOf]⟩
  · simp [settled, initial]
  · simp [settled, initial]
  · simp [settled, initial]
  · simp [initial]

theorem settled_insert {self : Nat} (absent : self ∉ heap.constructed)
    (frames : FramesOk heap.constructed heap.assigning) :
    insert self heap.constructed \ heap.released.toFinset = insert self heap.settled := by
  rw [Finset.insert_sdiff_of_notMem]
  · rfl
  · intro member
    exact absent (frames.released self (List.mem_toFinset.mp member))

theorem Ok.construct (ok : heap.Ok) {self : Nat} (absent : self ∉ heap.constructed)
    (isNull : Bool) : (heap.construct self isNull).Ok := by
  have notSettled : self ∉ heap.settled := fun member => absent (mem_settled.mp member).1
  refine ⟨ok.sound, ok.frames.mono (Finset.subset_insert _ _), ?_⟩
  have counted := ok.counted.construct notSettled isNull
  rw [← settled_insert absent ok.frames] at counted
  exact counted

variable {self other : Nat}

theorem Ok.copy (ok : heap.Ok) (absent : self ∉ heap.constructed)
    (member : other ∈ heap.constructed) (careful : Careful heap (.copy self other)) :
    (heap.copy self other).Ok := by
  have notSettled : self ∉ heap.settled := fun member => absent (mem_settled.mp member).1
  have settled : other ∈ heap.settled := mem_settled.mpr ⟨member, careful.1⟩
  have inside := ok.counted.inside (insert self heap.constructed) heap.assigning
  obtain ⟨constructed, assigning, fault, counted⟩ := inside.take notSettled settled careful.2
  refine ⟨fault.trans ok.sound, ?_, ?_⟩
  · rw [Heap.copy, assigning, constructed]
    exact ok.frames.mono (Finset.subset_insert _ _)
  · rw [← settled_insert absent ok.frames] at counted
    rw [Heap.copy, Heap.settled, Heap.released, assigning, constructed]
    exact counted

theorem Ok.destroy (ok : heap.Ok) {self : Nat} (member : self ∈ heap.constructed)
    (careful : Careful heap (.destroy self)) : (heap.destroy self).Ok := by
  have settled : self ∈ heap.settled := mem_settled.mpr ⟨member, careful.1⟩
  obtain ⟨keeps, counted, -⟩ := ok.counted.decrement settled
  refine ⟨keeps.fault.trans ok.sound, ?_, ?_⟩
  · rw [Heap.destroy, keeps.assigning]
    exact ok.frames.erase careful.1 careful.2
  · have erased : heap.constructed.erase self \ heap.released.toFinset = heap.settled.erase self :=
      Finset.erase_sdiff_comm _ _ _
    have inside := counted.inside (heap.constructed.erase self) heap.assigning
    rw [← erased] at inside
    rw [Heap.destroy, Heap.settled, Heap.released, keeps.assigning]
    exact inside

theorem Ok.bookkeeping_ne (ok : heap.Ok) (one : self ∈ heap.settled)
    (two : other ∈ heap.settled) (differ : (heap.value self).dmObject ≠ (heap.value other).dmObject) :
    (heap.value self).dmBookkeeping ≠ (heap.value other).dmBookkeeping :=
  fun same => differ (ok.counted.objects self one other two same)

theorem Ok.assign (ok : heap.Ok) (left : self ∈ heap.constructed)
    (right : other ∈ heap.constructed) (careful : Careful heap (.assign self other)) :
    (heap.assign self other).Ok := by
  have settledSelf : self ∈ heap.settled := mem_settled.mpr ⟨left, careful.1⟩
  have settledOther : other ∈ heap.settled := mem_settled.mpr ⟨right, careful.2.1⟩
  rw [Heap.assign]
  split
  · rename_i differ
    have apart : other ≠ self := by
      rintro rfl
      exact differ rfl
    obtain ⟨keeps, counted, last⟩ := ok.counted.decrement settledSelf
    dsimp only
    split
    · rename_i deletes
      refine ⟨keeps.fault.trans ok.sound, ?_, ?_⟩
      · rw [keeps.constructed]
        exact ⟨left, right, apart.symm, careful.1, careful.2.1, ok.frames⟩
      · have erased : heap.constructed \ (self :: heap.released).toFinset = heap.settled.erase self := by
          rw [List.toFinset_cons, Finset.sdiff_insert]
          rfl
        have inside := counted.inside heap.constructed ((self, other) :: heap.assigning)
        rw [← erased] at inside
        rw [Heap.settled, keeps.constructed]
        exact inside
    · rename_i keepsOn
      have room : heap.HasRoom other := by
        refine careful.2.2 differ fun deletes => keepsOn ?_
        rw [last.mpr deletes.1, deletes.2]
        rfl
      have sharers : (heap.decrement (heap.value self)).2.sharing (heap.settled.erase self)
          ((heap.decrement (heap.value self)).2.value other).dmBookkeeping =
          heap.sharing heap.settled (heap.value other).dmBookkeeping := by
        rw [keeps.value, ← sharing_erase_of_ne (ok.bookkeeping_ne settledSelf settledOther differ),
          sharing, keeps.value]
        rfl
      have absent : self ∉ heap.settled.erase self := Finset.notMem_erase _ _
      have member : other ∈ heap.settled.erase self := mem_erase.mpr ⟨apart, settledOther⟩
      obtain ⟨constructed, assigning, fault, taken⟩ := counted.take absent member (by rw [sharers]; exact room)
      have both : self ∈ (heap.decrement (heap.value self)).2.constructed ∧
          other ∈ (heap.decrement (heap.value self)).2.constructed := by
        rw [keeps.constructed]
        exact ⟨left, right⟩
      rw [Heap.replace, if_pos both]
      rw [Finset.insert_erase settledSelf] at taken
      refine ⟨fault.trans (keeps.fault.trans ok.sound), ?_, ?_⟩
      · rw [assigning, constructed, keeps.assigning, keeps.constructed]
        exact ok.frames
      · rw [Heap.settled, Heap.released, assigning, constructed, keeps.assigning, keeps.constructed]
        exact taken
  · exact ok

theorem Ok.finishAssign (ok : heap.Ok) {rest : List (Nat × Nat)}
    (frames : heap.assigning = (self, other) :: rest) (room : heap.HasRoom other) :
    ({ heap with assigning := rest }.replace self other).Ok := by
  have framesOk := ok.frames
  rw [frames] at framesOk
  obtain ⟨left, right, different, notSelf, notOther, restOk⟩ := framesOk
  have released : heap.released = self :: rest.map Prod.fst := by
    rw [Heap.released, frames]
    rfl
  have absent : self ∉ heap.settled := by
    simp [mem_settled, released]
  have member : other ∈ heap.settled := by
    rw [mem_settled, released, List.mem_cons, not_or]
    exact ⟨right, Ne.symm different, notOther⟩
  have grown : heap.constructed \ (rest.map Prod.fst).toFinset = insert self heap.settled := by
    rw [Heap.settled, released, List.toFinset_cons, Finset.sdiff_insert, Finset.insert_erase]
    simp [left, notSelf]
  obtain ⟨constructed, assigning, fault, taken⟩ :=
    (ok.counted.inside heap.constructed rest).take absent member room
  rw [Heap.replace, if_pos ⟨left, right⟩]
  refine ⟨fault.trans ok.sound, ?_, ?_⟩
  · rw [assigning, constructed]
    exact restOk
  · rw [← grown] at taken
    rw [Heap.settled, Heap.released, assigning, constructed]
    exact taken

end Heap

theorem ok_step {heap next : Heap} {input : Step} (ok : heap.Ok) (careful : Careful heap input)
    (stepped : step heap input = some next) : next.Ok := by
  cases input with
  | construct self isNull =>
    rw [step, Option.ite_none_left_eq_some] at stepped
    obtain ⟨absent, same⟩ := stepped
    cases same
    exact ok.construct absent isNull
  | copy self other =>
    rw [step, Option.ite_none_right_eq_some] at stepped
    obtain ⟨⟨absent, member⟩, same⟩ := stepped
    cases same
    exact ok.copy absent member careful
  | assign self other =>
    rw [step, Option.ite_none_right_eq_some] at stepped
    obtain ⟨⟨left, right⟩, same⟩ := stepped
    cases same
    exact ok.assign left right careful
  | finishAssign =>
    rw [step] at stepped
    cases frames : heap.assigning with
    | nil =>
      rw [frames] at stepped
      cases stepped
    | cons frame rest =>
      rw [frames] at stepped
      cases stepped
      have room := careful frame (by rw [frames]; rfl)
      exact ok.finishAssign frames room
  | destroy self =>
    rw [step, Option.ite_none_right_eq_some] at stepped
    obtain ⟨member, same⟩ := stepped
    cases same
    exact ok.destroy member careful

/-- The counts are those of the pointers that refer to the object, and every object without a
pointer has been deleted once. -/
structure Correct (heap : Heap) : Prop where
  sound : heap.fault = false
  bookkept : ∀ place ∈ heap.settled, ∃ references,
    heap.references (heap.value place).dmBookkeeping = some references ∧
    references.toNat = (heap.settled.filter fun other =>
      (heap.value other).dmBookkeeping = (heap.value place).dmBookkeeping).card
  counts : ∀ place ∈ heap.settled, ∀ object, (heap.value place).dmObject = some object →
    ∃ references, heap.references (heap.value place).dmBookkeeping = some references ∧
      references.toNat = (heap.settled.filter fun other =>
        (heap.value other).dmObject = some object).card
  deletedOnce : ∀ object < heap.nextObject, heap.deleted.count object =
    if ∃ place ∈ heap.settled, (heap.value place).dmObject = some object then 0 else 1

theorem Heap.Ok.references {heap : Heap} (ok : heap.Ok) {place : Nat}
    (member : place ∈ heap.settled) : ∃ references,
      heap.references (heap.value place).dmBookkeeping = some references ∧
      references.toNat = (heap.sharing heap.settled (heap.value place).dmBookkeeping).card := by
  obtain ⟨bound, references⟩ := ok.counted.counts (heap.value place).dmBookkeeping
  have positive : 0 < (heap.sharing heap.settled (heap.value place).dmBookkeeping).card :=
    card_pos.mpr ⟨place, mem_filter.mpr ⟨member, rfl⟩⟩
  rw [Heap.countOf_of_pos positive] at references
  exact ⟨_, references, by rw [UInt32.toNat_ofNat', Nat.mod_eq_of_lt bound]⟩

theorem Heap.Ok.correct {heap : Heap} (ok : heap.Ok) : Correct heap where
  sound := ok.sound
  bookkept place member := ok.references member
  counts place member object refers := by
    obtain ⟨references, stored, count⟩ := ok.references member
    refine ⟨references, stored, count.trans (congrArg Finset.card ?_)⟩
    refine Finset.filter_congr fun other there => ⟨fun same => ?_, fun again => ?_⟩
    · exact (ok.counted.objects other there place member same).trans refers
    · exact ok.counted.bookkeeping other there place member object again refers
  deletedOnce object created := by
    rw [ok.counted.deleted]
    by_cases referred : ∃ place ∈ heap.settled, (heap.value place).dmObject = some object
    · obtain ⟨place, member, refers⟩ := referred
      rw [if_neg fun unused => unused.2 place member refers, if_pos ⟨place, member, refers⟩]
    · rw [if_neg referred, if_pos ⟨created, fun place member refers => referred ⟨place, member, refers⟩⟩]

/-- A run whose steps are careful keeps the counts correct in every state it reaches. -/
theorem correct_of_careful {steps : List Step} {heap : Heap}
    (ran : Runs.run step Heap.initial steps = some heap)
    (careful : Runs.Along Careful step Heap.initial steps) : Correct heap :=
  (Runs.run_invariant_along Heap.Ok (fun _ _ _ ok met stepped => ok_step ok met stepped)
    Heap.ok_initial careful ran).correct

def shared : List Step :=
  [.construct 0 false, .copy 1 0, .construct 2 false, .assign 2 1, .finishAssign, .assign 1 1,
    .destroy 0, .destroy 1, .destroy 2]

theorem correct_of_careful_shared : ∃ heap, Runs.run step Heap.initial shared = some heap ∧ Correct heap := by
  refine ⟨_, rfl, @correct_of_careful shared _ rfl ?_⟩
  refine Runs.along_cons trivial rfl (Runs.along_cons ?_ rfl (Runs.along_cons trivial rfl ?_))
  · exact ⟨by decide, by decide⟩
  refine Runs.along_cons ?_ rfl (Runs.along_cons ?_ rfl (Runs.along_cons ?_ rfl ?_))
  · exact ⟨by decide, by decide, fun _ keeps => absurd ⟨rfl, rfl⟩ keeps⟩
  · intro frame isFirst
    cases isFirst
    decide
  · exact ⟨by decide, by decide, fun differ => absurd rfl differ⟩
  refine Runs.along_cons ?_ rfl (Runs.along_cons ?_ rfl (Runs.along_cons ?_ rfl trivial))
  · exact ⟨by decide, by decide⟩
  · exact ⟨by decide, by decide⟩
  · exact ⟨by decide, by decide⟩

/-- A pointer to the first node of a list, of which it becomes a pointer to the second: the
destructor of the first node destroys the pointer that is assigned. -/
def popFront : List Step :=
  [.construct 0 false, .construct 1 false, .assign 0 1, .destroy 1, .finishAssign]

theorem popFront_faults : ∃ heap, Runs.run step Heap.initial popFront = some heap ∧ ¬ Correct heap :=
  ⟨_, rfl, fun correct => absurd correct.sound (by decide)⟩

end OpenSpeedShop.SmartPtr
