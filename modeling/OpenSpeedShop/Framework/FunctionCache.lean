import OpenSpeedShop.Framework.CompressDatabase
import OpenSpeedShop.Framework.FunctionCacheCore
import OpenSpeedShop.Library.Runs

/-!
While no step changes the functions of a linked object that is cached, a query
answers with the functions that are stored.
-/

namespace OpenSpeedShop

open Fallible

theorem ExtentGroup.getIntersectionWithGroup_correct (nthElement : NthElement)
    {extents : List Extent} {group : ExtentGroup} (consistent : Consistent group) {fuel : Nat}
    (enough : 2 * group.extents.length ≤ fuel) :
    ∃ found next, group.getIntersectionWithGroup nthElement fuel extents = some (found, next) ∧
      Consistent next ∧ next.extents = group.extents ∧
      ∀ index, index ∈ found ↔ ∃ extent ∈ extents, index ∈ linearScan group.extents extent := by
  have looped : ∀ (start : Finset Nat) (current : ExtentGroup), Consistent current →
      current.extents = group.extents → ∃ found next, extents.foldlM (fun found extent => do
          let result ← found.2.getIntersectionWith nthElement fuel extent
          return (found.1 ∪ result.1, result.2)) (start, current) = some (found, next) ∧
        Consistent next ∧ next.extents = group.extents ∧
        ∀ index, index ∈ found ↔
          index ∈ start ∨ ∃ extent ∈ extents, index ∈ linearScan group.extents extent := by
    induction extents with
    | nil => exact fun start current consistent same => ⟨start, current, rfl, consistent, same, by simp⟩
    | cons extent rest ih =>
      intro start current consistentCurrent same
      obtain ⟨middle, scanned, consistentMiddle, sameMiddle⟩ :=
        getIntersectionWith_correct nthElement fuel consistentCurrent (by rw [same]; exact enough) extent
      obtain ⟨found, next, ran, consistentNext, sameNext, members⟩ :=
        ih (start ∪ linearScan current.extents extent) middle consistentMiddle (sameMiddle.trans same)
      refine ⟨found, next, ?_, consistentNext, sameNext, fun index => ?_⟩
      · rw [List.foldlM_cons, scanned]
        exact ran
      · rw [members, Finset.mem_union, same]
        simp [or_assoc]
  obtain ⟨found, next, ran, rest⟩ := looped ∅ group consistent rfl
  exact ⟨found, next, ran, rest.1, rest.2.1, fun index => by simpa using rest.2.2 index⟩

theorem ExtentTable.Caches.objectsAt {Group Object : Type} [DecidableEq Object]
    {table : ExtentTable Group Object} {group : Group} {pairs : List (Object × Extent)}
    (caches : table.Caches group pairs) {intersection : Finset Nat}
    (inside : ∀ index ∈ intersection, ∃ pair, pairs[index]? = some pair) :
    ∃ objects, table.objectsAt group intersection = some objects ∧ ∀ object, object ∈ objects ↔
        ∃ index ∈ intersection, ∃ pair, pairs[index]? = some pair ∧ pair.1 = object := by
  have all : ∀ index ∈ intersection, (table.getObject group index).isSome := by
    intro index member
    obtain ⟨pair, here⟩ := inside index member
    simp [caches.getObject, here]
  refine ⟨_, by rw [ExtentTable.objectsAt, if_pos all], fun object => ?_⟩
  simp [caches.getObject]

namespace FunctionCache

def Stored (databases : DatabasePtr → ExperimentTables) (linkedObject : Entry)
    (entry : Entry × Extent) : Prop :=
  ∃ row ∈ rangesIn (databases linkedObject.dmDatabase).functions linkedObject.dmEntry,
    ∃ entries, rowExtents linkedObject.dmDatabase row = .ok entries ∧ entry ∈ entries

def Decodable (databases : DatabasePtr → ExperimentTables) (linkedObject : Entry) : Prop :=
  ∀ row ∈ rangesIn (databases linkedObject.dmDatabase).functions linkedObject.dmEntry,
    ∃ ranges, row.2.contiguous = .ok ranges

def Intersects (databases : DatabasePtr → ExperimentTables) (linkedObject : Entry)
    (extents : List Extent) (function : Entry) : Prop :=
  ∃ extent, Stored databases linkedObject (function, extent) ∧
    ∃ other ∈ extents, extent.doesIntersect other = true

def Exact (nthElement : NthElement) (state : State) : Prop :=
  ∀ linkedObject extents,
    (∀ functions cache, getFunctions nthElement state.databases linkedObject extents
        state.theCache = some (functions, cache) →
      ∀ function, function ∈ functions ↔ Intersects state.databases linkedObject extents function) ∧
    (Decodable state.databases linkedObject → ∃ functions cache,
      getFunctions nthElement state.databases linkedObject extents state.theCache = some (functions, cache))

def Matches (databases : DatabasePtr → ExperimentTables) (linkedObject : Entry)
    (pairs : List (Entry × Extent)) : Prop :=
  pairs = [] ∨ ∀ pair, pair ∈ pairs ↔ Stored databases linkedObject pair

def Coherent (state : State) : Prop :=
  ∀ linkedObject, ∃ pairs, state.theCache.Caches linkedObject pairs ∧
    Matches state.databases linkedObject pairs

section

variable {databases : DatabasePtr → ExperimentTables} {linkedObject : Entry} {cache : Cache}

theorem rowExtents_total {database : DatabasePtr} {row : Int × RangeRow}
    {ranges : List AddressRange} (decoded : row.2.contiguous = .ok ranges) :
    ∃ entries, rowExtents database row = .ok entries :=
  ⟨_, by simp only [rowExtents, decoded, ok_bind]; rfl⟩

theorem addLinkedObject_ok {filled : Cache} (caches : cache.Caches linkedObject [])
    (ran : addLinkedObject databases linkedObject cache = .ok filled) :
    (∃ pairs, filled.Caches linkedObject pairs ∧ ∀ pair, pair ∈ pairs ↔ Stored databases linkedObject pair) ∧
    ∀ other, other ≠ linkedObject → cache.SameGroup filled other := by
  simp only [addLinkedObject, bind_eq_ok] at ran
  obtain ⟨entries, collected, returned⟩ := ran
  cases returned
  refine ⟨⟨entries, ?_, fun pair => ?_⟩, fun other different => ?_⟩
  · simpa using caches.foldl_addExtent
  · obtain ⟨each, rfl⟩ := collect_eq_ok.mp collected
    rw [List.mem_flatMap]
    constructor
    · rintro ⟨row, member, inGiven⟩
      obtain ⟨more, ran⟩ := each row member
      rw [given_of_ok ran] at inGiven
      exact ⟨row, member, more, ran, inGiven⟩
    · rintro ⟨row, member, more, ran, inMore⟩
      exact ⟨row, member, by rw [given_of_ok ran]; exact inMore⟩
  · exact ExtentTable.sameGroup_foldl_addExtent different cache

theorem addLinkedObject_total (decodable : Decodable databases linkedObject) :
    ∃ filled, addLinkedObject databases linkedObject cache = .ok filled := by
  have rows : ∀ row ∈ rangesIn (databases linkedObject.dmDatabase).functions linkedObject.dmEntry,
      ∃ entries, rowExtents linkedObject.dmDatabase row = .ok entries := by
    intro row member
    obtain ⟨ranges, decoded⟩ := decodable row member
    exact rowExtents_total decoded
  exact ⟨_, by rw [addLinkedObject, collect_total rows]; rfl⟩

theorem query_returns (nthElement : NthElement) {pairs : List (Entry × Extent)}
    (caches : cache.Caches linkedObject pairs) (extents : List Extent) : ∃ found next functions,
      (cache.getExtents linkedObject).getIntersectionWithGroup nthElement
        (2 * (cache.getExtents linkedObject).extents.length) extents = some (found, next) ∧
      cache.objectsAt linkedObject found = some functions ∧
      (cache.setExtents linkedObject next).Caches linkedObject pairs ∧
      ∀ function, function ∈ functions ↔ ∃ pair ∈ pairs, pair.1 = function ∧
        ∃ extent ∈ extents, pair.2.doesIntersect extent = true := by
  obtain ⟨found, next, scanned, consistent, same, members⟩ :=
    @ExtentGroup.getIntersectionWithGroup_correct nthElement extents _ caches.consistent _ le_rfl
  have places : ∀ index, index ∈ found ↔ ∃ pair, pairs[index]? = some pair ∧
      ∃ extent ∈ extents, pair.2.doesIntersect extent = true := by
    intro index
    rw [members]
    simp only [ExtentGroup.mem_linearScan, caches.extents, List.getElem?_map, Option.map_eq_some_iff]
    constructor
    · rintro ⟨extent, member, _, ⟨pair, here, rfl⟩, meets⟩
      exact ⟨pair, here, extent, member, meets⟩
    · rintro ⟨pair, here, extent, member, meets⟩
      exact ⟨extent, member, _, ⟨pair, here, rfl⟩, meets⟩
  obtain ⟨functions, objects, named⟩ := caches.objectsAt fun index member => by
    obtain ⟨pair, here, -⟩ := (places index).mp member
    exact ⟨pair, here⟩
  refine ⟨found, next, functions, scanned, objects, caches.setExtents same consistent, ?_⟩
  intro function
  rw [named]
  constructor
  · rintro ⟨index, member, pair, here, rfl⟩
    obtain ⟨other, there, meets⟩ := (places index).mp member
    rw [here, Option.some.injEq] at there
    subst there
    exact ⟨pair, List.mem_of_getElem? here, rfl, meets⟩
  · rintro ⟨pair, member, rfl, meets⟩
    obtain ⟨index, here⟩ := List.mem_iff_getElem?.mp member
    exact ⟨index, (places index).mpr ⟨pair, here, meets⟩, pair, here, rfl⟩

def filledCache (databases : DatabasePtr → ExperimentTables) (linkedObject : Entry)
    (cache : Cache) : Option Cache :=
  if (cache.getExtents linkedObject).extents.isEmpty then
    (addLinkedObject databases linkedObject cache).toOption
  else some cache

theorem filledCache_holds {filled : Cache} {pairs : List (Entry × Extent)}
    (caches : cache.Caches linkedObject pairs) (holds : Matches databases linkedObject pairs)
    (ran : filledCache databases linkedObject cache = some filled) :
    (∃ pairs, filled.Caches linkedObject pairs ∧ ∀ pair, pair ∈ pairs ↔ Stored databases linkedObject pair) ∧
    ∀ other, other ≠ linkedObject → cache.SameGroup filled other := by
  rw [filledCache, caches.isEmpty] at ran
  split at ran
  next empty =>
    rw [List.isEmpty_iff] at empty
    subst empty
    exact addLinkedObject_ok caches (toOption_eq_some.mp ran)
  next nonempty =>
    obtain rfl := Option.some.inj ran
    rw [List.isEmpty_iff] at nonempty
    exact ⟨⟨pairs, caches, holds.resolve_left nonempty⟩, fun other _ => ExtentTable.SameGroup.refl cache other⟩

theorem filledCache_total (decodable : Decodable databases linkedObject) :
    ∃ filled, filledCache databases linkedObject cache = some filled := by
  unfold filledCache
  split
  · obtain ⟨filled, ran⟩ := @addLinkedObject_total databases linkedObject cache decodable
    exact ⟨filled, toOption_eq_some.mpr ran⟩
  · exact ⟨cache, rfl⟩

theorem getFunctions_eq (nthElement : NthElement) (extents : List Extent) :
    getFunctions nthElement databases linkedObject extents cache =
      (filledCache databases linkedObject cache).bind fun cache =>
        ((cache.getExtents linkedObject).getIntersectionWithGroup nthElement
            (2 * (cache.getExtents linkedObject).extents.length) extents).bind fun found =>
          (cache.objectsAt linkedObject found.1).map fun functions =>
            (functions, cache.setExtents linkedObject found.2) := by
  unfold getFunctions filledCache
  split <;> simp [Option.map_eq_bind]

theorem getFunctions_holds (nthElement : NthElement) {pairs : List (Entry × Extent)}
    {extents : List Extent} {filled : Cache} (caches : cache.Caches linkedObject pairs)
    (holds : Matches databases linkedObject pairs)
    (fills : filledCache databases linkedObject cache = some filled) : ∃ functions after,
      getFunctions nthElement databases linkedObject extents cache = some (functions, after) ∧
      (∀ function, function ∈ functions ↔ Intersects databases linkedObject extents function) ∧
      (∃ pairs, after.Caches linkedObject pairs ∧ Matches databases linkedObject pairs) ∧
      ∀ other, other ≠ linkedObject → cache.SameGroup after other := by
  obtain ⟨⟨stored, cachesFilled, exact⟩, others⟩ := filledCache_holds caches holds fills
  obtain ⟨found, next, functions, scanned, objects, cachesNext, members⟩ :=
    query_returns nthElement cachesFilled extents
  refine ⟨functions, filled.setExtents linkedObject next, ?_, fun function => ?_,
    ⟨stored, cachesNext, .inr exact⟩, fun other different => ?_⟩
  · simp only [getFunctions_eq, fills, Option.bind_some, scanned, objects, Option.map_some]
  · rw [members]
    constructor
    · rintro ⟨⟨_, extent⟩, member, rfl, meets⟩
      exact ⟨extent, (exact _).mp member, meets⟩
    · rintro ⟨extent, member, meets⟩
      exact ⟨(function, extent), (exact _).mpr member, rfl, meets⟩
  · exact (others other different).trans (filled.sameGroup_setExtents different next)

theorem exact_of_coherent (nthElement : NthElement) {state : State} (coherent : Coherent state) :
    Exact nthElement state := by
  intro linkedObject extents
  obtain ⟨pairs, caches, holds⟩ := coherent linkedObject
  constructor
  · intro functions cache ran
    cases fills : filledCache state.databases linkedObject state.theCache with
    | none => simp [getFunctions_eq, fills] at ran
    | some filled =>
      obtain ⟨answer, after, again, members, -⟩ := getFunctions_holds nthElement caches holds fills
      rw [ran, Option.some.injEq, Prod.mk.injEq] at again
      rw [again.1]
      exact members
  · intro decodable
    obtain ⟨filled, fills⟩ := @filledCache_total _ _ state.theCache decodable
    obtain ⟨answer, after, ran, -⟩ := getFunctions_holds nthElement caches holds fills
    exact ⟨answer, after, ran⟩

end

def Cached (state : State) (linkedObject : Entry) : Prop :=
  (state.theCache.getExtents linkedObject).extents ≠ []

def Call.Safe (state : State) : Call → Prop
  | .updateThread _ _ => True
  | .updateThreads _ _ _ _ _ => True
  | .processAndStore symbolTable database linkedObject =>
    symbolTable.dmFunctions = [] ∨
      (¬ Cached state ⟨database, linkedObject.toInt⟩ ∧
        ∀ count < symbolTable.dmFunctions.length,
          (Int32.ofInt (nextId ((state.databases database).functions.objects.map ObjectRow.id) +
            count)).toInt =
          nextId ((state.databases database).functions.objects.map ObjectRow.id) + count)
  | .removeThread thread =>
    ∀ linkedObject : Int, Cached state ⟨thread.dmDatabase, linkedObject⟩ →
      ∃ row ∈ (state.databases thread.dmDatabase).addressSpaces,
        row.thread.toInt ≠ thread.dmEntry ∧ row.linkedObject.toInt = linkedObject
  | .compressDB environment database =>
    ∀ row ∈ (state.databases database).functions.objects,
      Cached state ⟨database, row.linkedObject.toInt⟩ →
        CompressDatabase.LeavesFunction environment database (state.databases database) row.id
  | .getFunctions _ _ => True
  | .removeDatabase _ => True

section

variable {state : State}

theorem Coherent.setTables (coherent : Coherent state) {database : DatabasePtr} {tables : ExperimentTables}
    (kept : ∀ linkedObject : Int, Cached state ⟨database, linkedObject⟩ → ∀ row,
      row ∈ rangesIn tables.functions linkedObject ↔
        row ∈ rangesIn (state.databases database).functions linkedObject) :
    Coherent (state.setTables database tables) := by
  rintro ⟨owner, linkedObject⟩
  obtain ⟨pairs, caches, holds⟩ := coherent ⟨owner, linkedObject⟩
  refine ⟨pairs, caches, ?_⟩
  rcases holds with empty | exact
  · exact .inl empty
  · by_cases empty : pairs = []
    · exact .inl empty
    · right
      have cached : Cached state ⟨owner, linkedObject⟩ := by
        rw [Cached, caches.extents]
        simpa using empty
      intro pair
      rw [exact]
      by_cases same : owner = database
      · subst same
        simp only [Stored, State.setTables, Function.update_self, kept linkedObject cached]
      · simp only [Stored, State.setTables, Function.update_of_ne same]

variable {Columns : Type}

theorem mem_rangesIn {tables : ObjectTables Columns} {linkedObject id : Int}
    {range : RangeRow} : (id, range) ∈ rangesIn tables linkedObject ↔
      range ∈ tables.ranges ∧ ∃ row ∈ tables.objects, row.id = range.object.toInt ∧ row.id = id ∧
        row.linkedObject.toInt = linkedObject := by
  simp only [rangesIn, List.mem_flatMap, List.mem_map, List.mem_filter, Bool.and_eq_true,
    decide_eq_true_eq, Prod.mk.injEq]
  constructor
  · rintro ⟨_, present, row, ⟨inObjects, joined, linked⟩, number, rfl⟩
    exact ⟨present, row, inObjects, joined, number, linked⟩
  · rintro ⟨present, row, inObjects, joined, number, linked⟩
    exact ⟨range, present, row, ⟨inObjects, joined, linked⟩, number, rfl⟩

variable {tables next : ExperimentTables}

theorem storeEntry_functions {thread : Int} {timeBegin : Time} {entry : AddressRange × LoadedObject}
    (ran : tables.storeEntry thread timeBegin entry = .ok next) : next.functions = tables.functions := by
  unfold ExperimentTables.storeEntry at ran
  dsimp only at ran
  split at ran
  next =>
    obtain ⟨_, -, created⟩ := bind_eq_ok.mp ran
    cases created
    rfl
  next =>
    cases ran
    rfl

theorem foldlM_functions {Item : Type} {step : ExperimentTables → Item → Result ExperimentTables}
    (each : ∀ tables item next, step tables item = .ok next → next.functions = tables.functions)
    {items : List Item} (ran : items.foldlM step tables = .ok next) : next.functions = tables.functions :=
  @Turns.foldlM_history Item ExperimentTables Failure step
    (fun _ current => current.functions = tables.functions)
    (fun _ current item after same stepped => (each current item after stepped).trans same)
    items [] tables next rfl ran

theorem updateThreadAt_functions {addressSpace : AddressSpace} {time : Time} {updateInterval : Bool}
    {thread : Int} (ran : tables.updateThreadAt addressSpace time updateInterval thread = .ok next) :
    next.functions = tables.functions := by
  have stored := foldlM_functions (fun _ _ _ => storeEntry_functions) ran
  rw [stored]
  split <;> rfl

variable {linkedObject : Int32}

theorem storeFunction_ok {dmRange : AddressRange}
    {tables next : ObjectTables String} {entry : AddressRange × String}
    (ran : SymbolTable.storeFunction dmRange linkedObject tables entry = .ok next)
    (fits : (Int32.ofInt (nextId (tables.objects.map ObjectRow.id))).toInt =
      nextId (tables.objects.map ObjectRow.id)) : next.objects.map ObjectRow.id =
        tables.objects.map ObjectRow.id ++ [nextId (tables.objects.map ObjectRow.id)] ∧
      ∀ other : Int, other ≠ linkedObject.toInt → ∀ row,
        row ∈ rangesIn next other ↔ row ∈ rangesIn tables other := by
  simp only [SymbolTable.storeFunction, ObjectTables.insertObject, ObjectTables.insertRange, bind_eq_ok] at ran
  obtain ⟨_, _, _, _, _, _, bitmap, _, blob, _, returned⟩ := ran
  cases returned
  refine ⟨by simp, ?_⟩
  rintro other different ⟨id, range⟩
  rw [mem_rangesIn, mem_rangesIn]
  constructor
  · rintro ⟨present, row, inObjects, joined, number, linked⟩
    rcases List.mem_append.mp inObjects with before | new
    · rcases List.mem_append.mp present with old | added
      · exact ⟨old, row, before, joined, number, linked⟩
      · rw [List.mem_singleton.mp added, fits] at joined
        have below : row.id < nextId (tables.objects.map ObjectRow.id) :=
          lt_nextId (List.mem_map.mpr ⟨row, before, rfl⟩)
        omega
    · rw [List.mem_singleton.mp new] at linked
      exact absurd linked.symm different
  · rintro ⟨present, row, inObjects, joined, number, linked⟩
    exact ⟨List.mem_append_left _ present, row, List.mem_append_left _ inObjects, joined, number, linked⟩

theorem storeFunctions_ok {dmRange : AddressRange}
    {entries : List (AddressRange × String)} : ∀ {tables next : ObjectTables String},
    entries.foldlM (SymbolTable.storeFunction dmRange linkedObject) tables = .ok next →
    (∀ count < entries.length, (Int32.ofInt (nextId (tables.objects.map ObjectRow.id) + count)).toInt =
        nextId (tables.objects.map ObjectRow.id) + count) → ∀ other : Int, other ≠ linkedObject.toInt → ∀ row,
      row ∈ rangesIn next other ↔ row ∈ rangesIn tables other := by
  induction entries with
  | nil =>
    intro tables next ran _ other _ row
    obtain rfl : tables = next := Except.ok.inj ran
    rfl
  | cons entry rest ih =>
    intro tables next ran fits other different row
    rw [List.foldlM_cons] at ran
    obtain ⟨middle, stored, others⟩ := bind_eq_ok.mp ran
    have first := fits 0 (by simp)
    simp only [Nat.cast_zero, add_zero] at first
    obtain ⟨ids, same⟩ := storeFunction_ok stored first
    refine (ih others (fun count inside => ?_) other different row).trans (same other different row)
    have later := fits (count + 1) (by simpa using inside)
    have shifted : nextId (tables.objects.map ObjectRow.id) + 1 + (count : Int) =
        nextId (tables.objects.map ObjectRow.id) + ((count + 1 : Nat) : Int) := by
      push_cast
      omega
    rw [ids, nextId_snoc, shifted]
    exact later

theorem processAndStore_ok {symbolTable : SymbolTable}
    (ran : tables.processAndStore symbolTable linkedObject = .ok next) :
    symbolTable.dmFunctions.foldlM (SymbolTable.storeFunction symbolTable.dmRange linkedObject)
      tables.functions = .ok next.functions := by
  simp only [ExperimentTables.processAndStore, SymbolTable.processAndStore, bind_eq_ok] at ran
  obtain ⟨symbols, ⟨functions, stored, loops, -, ⟨files, statements⟩, -, returned⟩, same⟩ := ran
  cases returned
  cases same
  exact stored

variable {row : Int × RangeRow}

theorem mem_rangesIn_deleteUnused {tables : ObjectTables Columns}
    {used : List Int32} {object : Int32} (member : object ∈ used) :
    row ∈ rangesIn (tables.deleteUnused used) object.toInt ↔ row ∈ rangesIn tables object.toInt := by
  obtain ⟨id, range⟩ := row
  simp only [mem_rangesIn, ObjectTables.deleteUnused, List.mem_filter, decide_eq_true_eq]
  constructor
  · rintro ⟨⟨present, -⟩, found, ⟨inObjects, -⟩, joined, number, linked⟩
    exact ⟨present, found, inObjects, joined, number, linked⟩
  · rintro ⟨present, found, inObjects, joined, number, linked⟩
    have stays : found.linkedObject ∈ used := by
      rw [Int32.toInt_inj.mp linked]
      exact member
    refine ⟨⟨present, List.mem_map.mpr ⟨found, ?_, joined⟩⟩, found, ⟨inObjects, stays⟩, joined, number, linked⟩
    exact List.mem_filter.mpr ⟨inObjects, decide_eq_true stays⟩

theorem mem_rangesIn_keeps {before after : ObjectTables Columns} {keep : Int → Prop}
    [DecidablePred keep] (keeps : before.Keeps keep after) {linkedObject : Int}
    (all : ∀ row ∈ before.objects, row.linkedObject.toInt = linkedObject → keep row.id) :
    row ∈ rangesIn after linkedObject ↔ row ∈ rangesIn before linkedObject := by
  obtain ⟨stays, ranges, needed⟩ := keeps.ranges
  obtain ⟨id, range⟩ := row
  simp only [mem_rangesIn, keeps.objects, ranges, List.mem_filter, decide_eq_true_eq]
  constructor
  · rintro ⟨⟨present, -⟩, found, ⟨inObjects, -⟩, joined, number, linked⟩
    exact ⟨present, found, inObjects, joined, number, linked⟩
  · rintro ⟨present, found, inObjects, joined, number, linked⟩
    have kept := all found inObjects linked
    exact ⟨⟨present, needed range present found inObjects joined kept⟩, found, ⟨inObjects, kept⟩,
      joined, number, linked⟩

theorem afterCompression_eq {ended : ExperimentTables × Result Unit} {tables : ExperimentTables}
    (left : afterCompression ended = some tables) : ended.1 = tables := by
  obtain ⟨remaining, result⟩ := ended
  cases result with
  | ok value => exact Option.some.inj left
  | error failure =>
    cases failure with
    | entryOverlapping table => exact Option.some.inj left
    | assertion => cases left
    | endlessLoop => cases left
    | outOfBounds => cases left

open Classical in
theorem compressDB_rangesIn {environment : Environment} {database : DatabasePtr}
    {tables after : ExperimentTables}
    (left : afterCompression (CompressDatabase.compressDB environment database tables) = some after)
    {linkedObject : Int} (all : ∀ row ∈ tables.functions.objects, row.linkedObject.toInt = linkedObject →
      CompressDatabase.LeavesFunction environment database tables row.id) :
    row ∈ rangesIn after.functions linkedObject ↔ row ∈ rangesIn tables.functions linkedObject := by
  cases ran : CompressDatabase.compressDB environment database tables with
  | mk remaining result =>
    rw [ran] at left
    obtain rfl : remaining = after := afterCompression_eq left
    obtain ⟨pruned, -, -, ⟨-, leaves, rfl⟩ | ⟨-, unchanged | leaves, rfl⟩⟩ :=
      CompressDatabase.compressDB_ran ran
    · exact mem_rangesIn_keeps leaves.functions all
    · rw [unchanged]
    · exact mem_rangesIn_keeps leaves.functions all

theorem removeDatabase_groups (databases : DatabasePtr → ExperimentTables) (database : DatabasePtr)
    (cache : Cache) (linkedObject : Entry) :
    (removeDatabase databases database cache).Caches linkedObject [] ∨
      cache.SameGroup (removeDatabase databases database cache) linkedObject := by
  unfold removeDatabase
  generalize (databases database).linkedObjects = rows
  induction rows generalizing cache with
  | nil => exact .inr (ExtentTable.SameGroup.refl cache linkedObject)
  | cons row rest ih =>
    rw [List.foldl_cons]
    rcases ih (cache.removeExtents ⟨database, row.id⟩) with removed | same
    · exact .inl removed
    · by_cases here : linkedObject = ⟨database, row.id⟩
      · subst here
        exact .inl ((cache.caches_removeExtents _).of_sameGroup same)
      · exact .inr ((cache.sameGroup_removeExtents here).trans same)

theorem Coherent.query {nthElement : NthElement} (coherent : Coherent state) {linkedObject : Entry}
    {extents : List Extent} {functions : Finset Entry} {cache : Cache}
    (ran : FunctionCache.getFunctions nthElement state.databases linkedObject extents state.theCache =
      some (functions, cache)) : Coherent { state with theCache := cache } := by
  obtain ⟨pairs, caches, holds⟩ := coherent linkedObject
  cases fills : filledCache state.databases linkedObject state.theCache with
  | none => simp [getFunctions_eq, fills] at ran
  | some filled =>
    obtain ⟨answer, after, again, -, here, others⟩ :=
      @getFunctions_holds _ _ _ nthElement _ extents _ caches holds fills
    rw [ran, Option.some.injEq, Prod.mk.injEq] at again
    rw [again.2]
    intro other
    by_cases same : other = linkedObject
    · rw [same]
      exact here
    · obtain ⟨otherPairs, otherCaches, otherHolds⟩ := coherent other
      exact ⟨otherPairs, otherCaches.of_sameGroup (others other same), otherHolds⟩

theorem Coherent.step {nthElement : NthElement} {call : Call} {next : State}
    (coherent : Coherent state) (safe : call.Safe state)
    (stepped : call.step nthElement state = some next) : Coherent next := by
  cases call with
  | updateThread addressSpace thread =>
    obtain ⟨tables, stored, returned⟩ := Option.bind_eq_some_iff.mp stepped
    cases returned
    have same := foldlM_functions (fun _ _ _ => storeEntry_functions) (toOption_eq_some.mp stored)
    exact coherent.setTables fun _ _ row => by rw [same]
  | updateThreads addressSpace time updateInterval database threads =>
    obtain ⟨tables, stored, returned⟩ := Option.bind_eq_some_iff.mp stepped
    cases returned
    have same := foldlM_functions (fun _ _ _ => updateThreadAt_functions) (toOption_eq_some.mp stored)
    exact coherent.setTables fun _ _ row => by rw [same]
  | processAndStore symbolTable database linkedObject =>
    obtain ⟨tables, stored, returned⟩ := Option.bind_eq_some_iff.mp stepped
    cases returned
    have stored := processAndStore_ok (toOption_eq_some.mp stored)
    refine coherent.setTables fun other cached row => ?_
    rcases safe with none | ⟨uncached, fits⟩
    · rw [none] at stored
      have same := Except.ok.inj stored
      rw [same]
    · refine storeFunctions_ok stored fits other (fun same => ?_) row
      exact uncached (same ▸ cached)
  | removeThread thread =>
    cases stepped
    refine coherent.setTables fun linkedObject cached row => ?_
    obtain ⟨space, inSpaces, remains, rfl⟩ := safe linkedObject cached
    refine mem_rangesIn_deleteUnused (List.mem_map.mpr ⟨space, ?_, rfl⟩)
    exact List.mem_filter.mpr ⟨inSpaces, decide_eq_true remains⟩
  | compressDB environment database =>
    obtain ⟨tables, left, returned⟩ := Option.bind_eq_some_iff.mp stepped
    cases returned
    refine coherent.setTables fun linkedObject cached row => ?_
    exact compressDB_rangesIn left fun object member linked =>
      safe object member (by rw [linked]; exact cached)
  | getFunctions linkedObject extents =>
    obtain ⟨⟨functions, cache⟩, ran, returned⟩ := Option.bind_eq_some_iff.mp stepped
    cases returned
    exact coherent.query ran
  | removeDatabase database =>
    cases stepped
    intro linkedObject
    rcases removeDatabase_groups state.databases database state.theCache linkedObject with
      removed | same
    · exact ⟨[], removed, .inl rfl⟩
    · obtain ⟨pairs, caches, holds⟩ := coherent linkedObject
      exact ⟨pairs, caches.of_sameGroup same, holds⟩

theorem coherent_opened (databases : DatabasePtr → ExperimentTables) : Coherent (State.opened databases) :=
  fun linkedObject => ⟨[], ExtentTable.caches_empty linkedObject, .inl rfl⟩

end

/-- In every run whose steps leave the stored functions of cached linked objects alone, every
query returns what is stored. -/
theorem getFunctions_exact {nthElement : NthElement} {databases : DatabasePtr → ExperimentTables}
    {calls : List Call} {state : State}
    (safe : Runs.Along (fun state call => call.Safe state)
      (fun state call => Call.step nthElement state call) (State.opened databases) calls)
    (ran : Runs.run (fun state call => Call.step nthElement state call) (State.opened databases)
      calls = some state) : Exact nthElement state :=
  exact_of_coherent nthElement (Runs.run_invariant_along Coherent
    (fun _ _ _ coherent safe stepped => coherent.step safe stepped) (coherent_opened databases)
    safe ran)

def noSymbols : ExperimentTables where
  addressSpaces := []
  functions := ⟨[], []⟩
  loops := ⟨[], []⟩
  files := []
  statements := ⟨[], []⟩
  threads := [1, 2]
  linkedObjects := []

def library (path : String) : AddressSpace := [(⟨4096, 4160⟩, ⟨path, false⟩)]

def oneFunctionAt (dmBegin dmEnd : Address) (name : String) : SymbolTable where
  dmRange := ⟨4096, 4160⟩
  dmFunctions := [(⟨dmBegin, dmEnd⟩, name)]
  dmLoops := []
  dmStatements := []

def everywhere : Extent := ⟨⟨0, 100⟩, ⟨0, 64⟩⟩

def firstLibrary : List Call :=
  [.updateThread (library "/lib/liba.so") ⟨1, 1⟩, .processAndStore (oneFunctionAt 4096 4112 "a") 1 1,
    .getFunctions ⟨1, 1⟩ [everywhere]]

def secondLibrary : List Call :=
  [.removeThread ⟨1, 1⟩, .updateThread (library "/lib/libb.so") ⟨1, 2⟩,
    .processAndStore (oneFunctionAt 4128 4144 "b") 1 1]

def outcome (calls : List Call) (linkedObject : Entry) (extents : List Extent) :
    Option (ObjectTables String × Option (Finset Entry)) :=
  (Runs.run (fun state call => Call.step NthElement.bySorting state call)
    (State.opened fun _ => noSymbols) calls).map fun state =>
      ((state.databases linkedObject.dmDatabase).functions,
        (getFunctions NthElement.bySorting state.databases linkedObject extents state.theCache).map Prod.fst)

theorem getFunctions_exact_firstLibrary : ∃ state,
    Runs.run (fun state call => Call.step NthElement.bySorting state call)
      (State.opened fun _ => noSymbols) firstLibrary = some state ∧
      Exact NthElement.bySorting state := by
  have ran : (Runs.run (fun state call => Call.step NthElement.bySorting state call)
      (State.opened fun _ => noSymbols) firstLibrary).isSome = true := by decide +kernel
  obtain ⟨state, reached⟩ := Option.isSome_iff_exists.mp ran
  refine ⟨state, reached, getFunctions_exact ?_ reached⟩
  refine ⟨trivial, fun stored updated => ⟨?_, fun filled processed => ⟨trivial, fun _ _ => trivial⟩⟩⟩
  simp only [Call.step] at updated
  obtain ⟨tables, updatedTables, returned⟩ := Option.bind_eq_some_iff.mp updated
  cases returned
  have same := foldlM_functions (fun _ _ _ => storeEntry_functions) (toOption_eq_some.mp updatedTables)
  refine .inr ⟨fun cached => cached rfl, fun count inside => ?_⟩
  obtain rfl : count = 0 := Nat.lt_one_iff.mp inside
  simp only [State.setTables, Function.update_self, same]
  decide

theorem reused_row_stale : ∃ databases calls state,
    Runs.run (fun state call => Call.step NthElement.bySorting state call) (State.opened databases)
      calls = some state ∧ ¬ Exact NthElement.bySorting state := by
  have left : outcome (firstLibrary ++ secondLibrary) ⟨1, 1⟩ [⟨⟨0, 100⟩, ⟨32, 48⟩⟩] =
      some (⟨[⟨1, 1, "b"⟩], [rangeRow 1 32 48 [0xff, 0xff]]⟩, some ∅) := by decide +kernel
  obtain ⟨state, ran, same⟩ := Option.map_eq_some_iff.mp left
  obtain ⟨functions, answered⟩ := Prod.mk.inj same
  obtain ⟨⟨found, cache⟩, queried, rfl⟩ := Option.map_eq_some_iff.mp answered
  refine ⟨fun _ => noSymbols, firstLibrary ++ secondLibrary, state, ran, fun exact => ?_⟩
  have extents : (rowExtents 1 (1, rangeRow 1 32 48 [0xff, 0xff])).toOption =
      some [(⟨1, 1⟩, ⟨⟨Time.theBeginning, Time.theEnd⟩, ⟨32, 48⟩⟩)] := by decide +kernel
  have stored : Stored state.databases ⟨1, 1⟩ (⟨1, 1⟩, ⟨⟨Time.theBeginning, Time.theEnd⟩, ⟨32, 48⟩⟩) := by
    refine ⟨(1, rangeRow 1 32 48 [0xff, 0xff]), ?_, _, toOption_eq_some.mp extents, by simp⟩
    rw [functions]
    decide
  have missed := (exact ⟨1, 1⟩ [⟨⟨0, 100⟩, ⟨32, 48⟩⟩]).1 _ _ queried ⟨1, 1⟩
  have intersects : Intersects state.databases ⟨1, 1⟩ [⟨⟨0, 100⟩, ⟨32, 48⟩⟩] ⟨1, 1⟩ :=
    ⟨_, stored, _, List.mem_singleton_self _, by decide⟩
  exact absurd (missed.mpr intersects) (Finset.notMem_empty _)

end FunctionCache

end OpenSpeedShop
