import OpenSpeedShop.Framework.ThreadLookup

/-!
Lookups in tables of which some objects are left, with at least their ranges. A lookup answers as before
when the objects that it names are left, and no other mapping comes first.
-/

namespace OpenSpeedShop

open Fallible

theorem collect_filter {Item Value : Type} {body : Item → Result (List Value)}
    {keepItem : Item → Bool} {keep : Value → Bool} {items : List Item} {found : List Value}
    (ran : collect body items = .ok found)
    (agree : ∀ item ∈ items, ∀ value ∈ given (body item), keep value = keepItem item) :
    collect body (items.filter keepItem) = .ok (found.filter keep) := by
  obtain ⟨each, rfl⟩ := collect_eq_ok.mp ran
  refine collect_eq_ok.mpr ⟨fun item member => each item (List.mem_filter.mp member).1, ?_⟩
  clear ran each
  induction items with
  | nil => rfl
  | cons item rest ih =>
    have others := ih fun other member => agree other (List.mem_cons_of_mem _ member)
    have here := agree item List.mem_cons_self
    rw [List.flatMap_cons, List.filter_append, others]
    cases kept : keepItem item with
    | true =>
      have all : (given (body item)).filter keep = given (body item) :=
        List.filter_eq_self.mpr fun value member => (here value member).trans kept
      rw [all, List.filter_cons_of_pos kept, List.flatMap_cons]
    | false =>
      have none : (given (body item)).filter keep = [] :=
        List.filter_eq_nil_iff.mpr fun value member => by simp [here value member, kept]
      rw [none, List.filter_cons_of_neg (by simp [kept]), List.nil_append]

namespace ObjectTables

variable {Columns : Type}

def only (tables : ObjectTables Columns) (keep : Int → Prop) [DecidablePred keep] : ObjectTables Columns :=
  { tables with objects := tables.objects.filter fun row => keep row.id }

structure Keeps (keep : Int → Prop) [DecidablePred keep] (before after : ObjectTables Columns) : Prop where
  objects : after.objects = before.objects.filter fun row => keep row.id
  ranges : ∃ stays : RangeRow → Bool, after.ranges = before.ranges.filter stays ∧
    ∀ range ∈ before.ranges, ∀ row ∈ before.objects, row.id = range.object.toInt →
      keep row.id → stays range = true

variable {keep : Int → Prop} [DecidablePred keep] {before after : ObjectTables Columns}

theorem keeps_only (before : ObjectTables Columns) : Keeps keep before (before.only keep) :=
  ⟨rfl, fun _ => true, by simp [only], by simp⟩

theorem Keeps.rangesAt (keeps : Keeps keep before after) (linkedObject : Int32)
    (address : Address) : Thread.rangesAt after linkedObject address =
      (Thread.rangesAt before linkedObject address).filter fun row => keep row.1 := by
  obtain ⟨stays, ranges, needed⟩ := keeps.ranges
  rw [Thread.rangesAt, Thread.rangesAt, ranges, keeps.objects]
  clear ranges
  revert needed
  induction before.ranges with
  | nil => exact fun _ => rfl
  | cons range rest ih =>
    intro needed
    have others := ih fun other member => needed other (List.mem_cons_of_mem _ member)
    have rows : (((before.objects.filter fun row => keep row.id).filter fun row =>
          row.id = range.object.toInt && row.linkedObject = linkedObject &&
            between address range.addrBegin range.addrEnd).map fun row => (row.id, range)) =
        ((before.objects.filter fun row =>
          row.id = range.object.toInt && row.linkedObject = linkedObject &&
            between address range.addrBegin range.addrEnd).map fun row =>
              (row.id, range)).filter fun row => keep row.1 := by
      rw [List.filter_map, List.filter_filter, List.filter_filter]
      refine congrArg _ (List.filter_congr fun row _ => ?_)
      simp [Bool.and_comm]
    rw [List.flatMap_cons, List.filter_append, ← others]
    by_cases staysHere : stays range = true
    · rw [List.filter_cons_of_pos staysHere, List.flatMap_cons, rows]
    · have none : ((before.objects.filter fun row =>
          row.id = range.object.toInt && row.linkedObject = linkedObject &&
            between address range.addrBegin range.addrEnd).map fun row =>
              (row.id, range)).filter (fun row => keep row.1) = [] := by
        refine List.filter_eq_nil_iff.mpr fun pair member kept => ?_
        obtain ⟨row, inRows, rfl⟩ := List.mem_map.mp member
        obtain ⟨inObjects, selected⟩ := List.mem_filter.mp inRows
        simp only [Bool.and_eq_true, decide_eq_true_eq] at selected kept
        exact staysHere (needed range List.mem_cons_self row inObjects selected.1.1 kept)
      rw [List.filter_cons_of_neg staysHere, none, List.nil_append]

variable {space : AddressSpaceRow}

theorem Keeps.objectsAt (keeps : Keeps keep before after) {address : Address} {found : List Int}
    (ran : Thread.objectsAt before space address = .ok found) :
    Thread.objectsAt after space address = .ok (found.filter fun id => keep id) := by
  simp only [Thread.objectsAt, bind_eq_ok] at ran ⊢
  obtain ⟨offset, subtracted, collected⟩ := ran
  refine ⟨offset, subtracted, ?_⟩
  rw [keeps.rangesAt]
  refine collect_filter collected fun row member id inGiven => ?_
  obtain ⟨each, -⟩ := collect_eq_ok.mp collected
  obtain ⟨more, ran⟩ := each row member
  rw [given_of_ok ran] at inGiven
  simp only [bind_eq_ok] at ran
  obtain ⟨bitmap, decoded, valid, got, returned⟩ := ran
  cases returned
  cases valid with
  | false => simp at inGiven
  | true =>
    obtain rfl : id = row.1 := by simpa using inGiven
    rfl

theorem objectsAt_congr {one two : ObjectTables Columns} {address : Address}
    (same : ∀ offset, Thread.rangesAt one space.linkedObject offset =
      Thread.rangesAt two space.linkedObject offset) :
    Thread.objectsAt one space address = Thread.objectsAt two space address := by
  simp only [Thread.objectsAt, same]

end ObjectTables

namespace Thread

variable {Columns Answer : Type}

def lookup (answer : List Int → Answer) (objects : ObjectTables Columns)
    (spaces : List AddressSpaceRow) (address : Address) : Result Answer :=
  match spaces with
  | [] => return answer []
  | space :: _ => do
      let found ← objectsAt objects space address
      return answer found

theorem getFunctionAt_eq (databases : DatabasePtr → SymbolTables) (thread : Entry)
    (address : Address) (time : Time) : getFunctionAt databases thread address time =
      lookup (fun found => found.getLast?.map (Entry.mk thread.dmDatabase))
        (databases thread.dmDatabase).functions
        (spacesAt (databases thread.dmDatabase) thread address time) address := by
  unfold getFunctionAt lookup
  dsimp only
  cases spacesAt (databases thread.dmDatabase) thread address time <;> rfl

theorem getStatementsAt_eq (databases : DatabasePtr → SymbolTables) (thread : Entry)
    (address : Address) (time : Time) : getStatementsAt databases thread address time =
      lookup (fun found => (found.map (Entry.mk thread.dmDatabase)).toFinset)
        (databases thread.dmDatabase).statements
        (spacesAt (databases thread.dmDatabase) thread address time) address := by
  unfold getStatementsAt lookup
  dsimp only
  cases spacesAt (databases thread.dmDatabase) thread address time <;> rfl

structure Reports (answer : List Int → Answer) (names : Answer → Int → Prop) : Prop where
  named : ∀ found id, names (answer found) id → id ∈ found
  some : ∀ found, found ≠ [] → ∃ id, names (answer found) id
  filter : ∀ (keep : Int → Bool) (found : List Int),
    answer (found.filter keep) = answer found ↔ ∀ id, names (answer found) id → keep id = true

variable {found : List Int}

theorem getLast?_filter {keep : Int → Bool} :
    (found.filter keep).getLast? = found.getLast? ↔ ∀ id, found.getLast? = some id → keep id = true := by
  induction found using List.reverseRecOn with
  | nil => simp
  | append_singleton found last ih =>
    cases kept : keep last with
    | true => simp [List.filter_append, kept]
    | false =>
      simp only [List.filter_append, List.filter_cons, kept, List.filter_nil,
        List.getLast?_append, Bool.false_eq_true, if_false, List.append_nil]
      constructor
      · intro same
        have member := List.mem_of_getLast? (same.trans rfl)
        simp [kept] at member
      · intro all
        have impossible := all last (by simp)
        rw [kept] at impossible
        cases impossible

theorem reports_function (database : DatabasePtr) :
    Reports (fun found => found.getLast?.map (Entry.mk database))
      (fun function id => function = some ⟨database, id⟩) := by
  have same : ∀ (found : List Int) (id : Int),
      found.getLast?.map (Entry.mk database) = some ⟨database, id⟩ ↔ found.getLast? = some id := by
    simp [Option.map_eq_some_iff]
  refine ⟨fun found id named => ?_, fun found nonempty => ?_, fun keep found => ?_⟩
  · exact List.mem_of_getLast? ((same found id).mp named)
  · exact ⟨found.getLast nonempty, (same _ _).mpr (List.getLast?_eq_some_getLast nonempty)⟩
  · simp only [same]
    rw [← getLast?_filter]
    exact (Option.map_injective fun one two equal => (Entry.mk.inj equal).2).eq_iff

theorem reports_statements (database : DatabasePtr) :
    Reports (fun found => (found.map (Entry.mk database)).toFinset)
      (fun statements id => ⟨database, id⟩ ∈ statements) := by
  have same : ∀ (found : List Int) (id : Int),
      (⟨database, id⟩ : Entry) ∈ (found.map (Entry.mk database)).toFinset ↔ id ∈ found := by
    simp
  refine ⟨fun found id => (same found id).mp, fun found nonempty => ?_, fun keep found => ?_⟩
  · obtain ⟨id, member⟩ := List.exists_mem_of_ne_nil found nonempty
    exact ⟨id, (same found id).mpr member⟩
  · constructor
    · intro equal id member
      rw [← equal, same] at member
      exact (List.mem_filter.mp member).2
    · intro all
      have whole : found.filter keep = found :=
        List.filter_eq_self.mpr fun id member => all id ((same found id).mpr member)
      rw [whole]

theorem objectsAt_from {objects : ObjectTables Columns} {space : AddressSpaceRow}
    {address : Address} (ran : objectsAt objects space address = .ok found) {id : Int} (member : id ∈ found) :
    ∃ offset row, row ∈ rangesAt objects space.linkedObject offset ∧ row.1 = id := by
  simp only [objectsAt, bind_eq_ok] at ran
  obtain ⟨offset, -, collected⟩ := ran
  obtain ⟨each, rfl⟩ := collect_eq_ok.mp collected
  obtain ⟨row, inRows, inGiven⟩ := List.mem_flatMap.mp member
  obtain ⟨more, ran⟩ := each row inRows
  rw [given_of_ok ran] at inGiven
  simp only [bind_eq_ok] at ran
  obtain ⟨bitmap, -, valid, -, returned⟩ := ran
  cases returned
  refine ⟨_, row, inRows, ?_⟩
  cases valid with
  | false => simp at inGiven
  | true =>
    obtain rfl : id = row.1 := by simpa using inGiven
    rfl

/-- Where the first mapping of an address is gone and showed nothing, the first one that is
left shows nothing, either. -/
def Covered (objects : ObjectTables Columns) (keep : Int → Prop) [DecidablePred keep]
    (stays : AddressSpaceRow → Bool) (spaces : List AddressSpaceRow) (address : Address) : Prop :=
  ∀ space rest, spaces = space :: rest → stays space = false →
    objectsAt objects space address = .ok [] →
    ∀ next, rest.find? stays = some next → objectsAt (objects.only keep) next address = .ok []

variable {answer : List Int → Answer} {names : Answer → Int → Prop} {keep : Int → Prop}
  [DecidablePred keep] {before after : ObjectTables Columns} {spaces : List AddressSpaceRow}
  {stays : AddressSpaceRow → Bool} {address : Address}

theorem Reports.eq_nil (reports : Reports answer names) (same : answer found = answer []) : found = [] := by
  by_contra nonempty
  obtain ⟨id, named⟩ := reports.some found nonempty
  rw [same] at named
  exact absurd (reports.named [] id named) List.not_mem_nil

theorem lookup_behind_iff (reports : Reports answer names) (keeps : before.Keeps keep after)
    (none : ∀ id ∈ found, ¬ keep id) :
    lookup answer after (spaces.filter stays) address = .ok (answer found) ↔
      found = [] ∧ ∀ next, spaces.find? stays = some next →
        objectsAt (before.only keep) next address = .ok [] := by
  have sameObjects : ∀ next, objectsAt after next address =
      objectsAt (before.only keep) next address := fun next =>
    ObjectTables.objectsAt_congr fun offset => by
      rw [keeps.rangesAt, (ObjectTables.keeps_only before).rangesAt]
  cases left : spaces.filter stays with
  | nil =>
    have nothing : spaces.find? stays = Option.none := by
      rw [← List.head?_filter, left]
      rfl
    have returned : lookup answer after [] address = .ok (answer []) := rfl
    rw [returned, Except.ok.injEq, nothing]
    constructor
    · exact fun same => ⟨reports.eq_nil same.symm, fun next impossible => by cases impossible⟩
    · rintro ⟨rfl, -⟩
      rfl
  | cons next later =>
    have first : spaces.find? stays = some next := by
      rw [← List.head?_filter, left]
      rfl
    simp only [first, Option.some.injEq, forall_eq', lookup, sameObjects]
    constructor
    · intro ran
      obtain ⟨others, looked, returned⟩ := bind_eq_ok.mp ran
      have same : answer others = answer found := Except.ok.inj returned
      have empty : found = [] := by
        by_contra nonempty
        obtain ⟨id, named⟩ := reports.some found nonempty
        have member := reports.named found id named
        rw [← same] at named
        obtain ⟨offset, row, inRows, rfl⟩ :=
          objectsAt_from looked (reports.named others id named)
        rw [(ObjectTables.keeps_only before).rangesAt] at inRows
        exact none _ member (of_decide_eq_true (List.mem_filter.mp inRows).2)
      subst empty
      rw [reports.eq_nil same] at looked
      exact ⟨rfl, looked⟩
    · rintro ⟨rfl, shown⟩
      rw [shown]
      rfl

theorem lookup_keeps_iff (reports : Reports answer names) (keeps : before.Keeps keep after)
    (needed : ∀ space ∈ spaces, ∀ offset, ∀ row ∈ rangesAt before space.linkedObject offset,
      keep row.1 → stays space = true) : (∀ result, lookup answer before spaces address = .ok result →
      lookup answer after (spaces.filter stays) address = .ok result) ↔
    (∀ result, lookup answer before spaces address = .ok result →
      ∀ id, names result id → keep id) ∧ Covered before keep stays spaces address := by
  cases spaces with
  | nil =>
    refine ⟨fun _ => ⟨fun result ran id named => ?_, fun space rest split => ?_⟩, fun _ result ran => ran⟩
    · obtain rfl : answer [] = result := Except.ok.inj ran
      exact absurd (reports.named [] id named) List.not_mem_nil
    · cases split
  | cons space rest =>
    cases looked : objectsAt before space address with
    | error failure =>
      have failed : lookup answer before (space :: rest) address = .error failure := by
        simp [lookup, looked]
      simp [failed, Covered, looked]
    | ok found =>
      have first : lookup answer before (space :: rest) address = .ok (answer found) := by
        simp only [lookup, looked, ok_bind]
        rfl
      simp only [first, Except.ok.injEq, forall_eq']
      cases kept : stays space with
      | true =>
        have left : lookup answer after ((space :: rest).filter stays) address =
            .ok (answer (found.filter fun id => keep id)) := by
          rw [List.filter_cons_of_pos kept]
          simp only [lookup, keeps.objectsAt looked, ok_bind]
          rfl
        have covered : Covered before keep stays (space :: rest) address := by
          intro other others split gone
          cases split
          rw [kept] at gone
          cases gone
        rw [left, Except.ok.injEq, reports.filter, and_iff_left covered]
        simp
      | false =>
        have none : ∀ id ∈ found, ¬ keep id := by
          intro id member keepId
          obtain ⟨offset, row, inRows, rfl⟩ := objectsAt_from looked member
          have impossible := needed space List.mem_cons_self offset row inRows keepId
          rw [kept] at impossible
          cases impossible
        have empty : (∀ id, names (answer found) id → keep id) ↔ found = [] := by
          constructor
          · intro all
            by_contra nonempty
            obtain ⟨id, named⟩ := reports.some found nonempty
            exact none id (reports.named found id named) (all id named)
          · rintro rfl id named
            exact absurd (reports.named [] id named) List.not_mem_nil
        have covered : found = [] → (Covered before keep stays (space :: rest) address ↔
            ∀ next, rest.find? stays = some next → objectsAt (before.only keep) next address = .ok []) := by
          rintro rfl
          constructor
          · exact fun covered => covered space rest rfl kept looked
          · intro behind other others split _ _
            cases split
            exact behind
        rw [List.filter_cons_of_neg (by simp [kept]), lookup_behind_iff reports keeps none, empty]
        exact and_congr_right fun none => (covered none).symm

theorem lookup_from {result : Answer} (reports : Reports answer names)
    (ran : lookup answer before spaces address = .ok result) {id : Int} (named : names result id) :
    ∃ space ∈ spaces, ∃ offset row, row ∈ rangesAt before space.linkedObject offset ∧ row.1 = id := by
  cases spaces with
  | nil =>
    obtain rfl : answer [] = result := Except.ok.inj ran
    exact absurd (reports.named [] id named) List.not_mem_nil
  | cons space rest =>
    simp only [lookup, bind_eq_ok] at ran
    obtain ⟨found, looked, returned⟩ := ran
    obtain rfl : answer found = result := Except.ok.inj returned
    obtain ⟨offset, row, inRows, same⟩ := objectsAt_from looked (reports.named found id named)
    exact ⟨space, List.mem_cons_self, offset, row, inRows, same⟩

theorem lookup_answers {result : Answer}
    (ran : lookup answer before spaces address = .ok result) : ∃ found, answer found = result := by
  cases spaces with
  | nil => exact ⟨[], Except.ok.inj ran⟩
  | cons space rest =>
    simp only [lookup, bind_eq_ok] at ran
    obtain ⟨found, -, returned⟩ := ran
    exact ⟨found, Except.ok.inj returned⟩

theorem covered_congr {wanted : Int → Prop} [DecidablePred wanted]
    (agree : ∀ space ∈ spaces, ∀ offset, ∀ row ∈ rangesAt before space.linkedObject offset,
      (keep row.1 ↔ wanted row.1)) :
    Covered before keep stays spaces address ↔ Covered before wanted stays spaces address := by
  refine forall_congr' fun space => forall_congr' fun rest => forall_congr' fun split => ?_
  refine forall_congr' fun _ => forall_congr' fun _ => forall_congr' fun next => ?_
  refine forall_congr' fun found => ?_
  have member : next ∈ spaces := by
    rw [split]
    exact List.mem_cons_of_mem _ (List.mem_of_find?_eq_some found)
  have same : objectsAt (before.only keep) next address = objectsAt (before.only wanted) next address := by
    refine ObjectTables.objectsAt_congr fun offset => ?_
    rw [(ObjectTables.keeps_only before).rangesAt, (ObjectTables.keeps_only before).rangesAt]
    refine List.filter_congr fun row inRows => ?_
    rw [decide_eq_decide]
    exact agree next member offset row inRows
  rw [same]

theorem lookup_wanted_iff {wanted : Int → Prop} [DecidablePred wanted]
    (reports : Reports answer names) (keeps : before.Keeps keep after)
    (agree : ∀ space ∈ spaces, ∀ offset, ∀ row ∈ rangesAt before space.linkedObject offset,
      (keep row.1 ↔ wanted row.1))
    (needed : ∀ space ∈ spaces, ∀ offset, ∀ row ∈ rangesAt before space.linkedObject offset,
      wanted row.1 → stays space = true) : (∀ result, lookup answer before spaces address = .ok result →
      lookup answer after (spaces.filter stays) address = .ok result) ↔
    (∀ result, lookup answer before spaces address = .ok result →
      ∀ id, names result id → wanted id) ∧ Covered before wanted stays spaces address := by
  rw [lookup_keeps_iff reports keeps fun space member offset row inRows keepRow =>
    needed space member offset row inRows ((agree space member offset row inRows).mp keepRow)]
  refine and_congr ?_ (covered_congr agree)
  refine forall_congr' fun result => forall_congr' fun ran => forall_congr' fun id => ?_
  refine forall_congr' fun named => ?_
  obtain ⟨space, member, offset, row, inRows, rfl⟩ := lookup_from reports ran named
  exact agree space member offset row inRows

end Thread

end OpenSpeedShop
