import OpenSpeedShop.Library.LinearProbing
import OpenSpeedShop.Library.Runs

/-!
The explicit thread-local storage (TLS): a map of keys to pointers for each thread, or one for a
process. A failing assertion, an access outside and an endless loop give no result.
-/

open Function (update_self update_of_ne update)

namespace OpenSpeedShop

namespace Tls

def mapSize : Nat := 32

/-- A `void*`; zero is the null pointer. -/
abbrev Pointer := UInt64

structure Map where
  size : UInt32
  keys : Vector UInt32 mapSize
  values : Vector Pointer mapSize
deriving DecidableEq

def Map.zero : Map := ⟨0, Vector.replicate _ 0, Vector.replicate _ 0⟩

def Map.probe (map : Map) (key : UInt32) : (fuel bucket : Nat) → Option Nat
  | 0, _ => none
  | fuel + 1, bucket => do
      let other ← map.keys[bucket]?
      if other > 0 && other != key then probe map key fuel ((bucket + 1) % mapSize)
      else return bucket

def Map.getValue (map : Map) (key : UInt32) : Option (Map × Nat) := do
  let bucket ← map.probe key mapSize (key.toNat % mapSize)
  let other ← map.keys[bucket]?
  if other = 0 then
    if inside : bucket < mapSize then
      let size := map.size + 1
      if size.toNat < mapSize - 1 then
        some ({ map with keys := map.keys.set bucket key, size := size }, bucket)
      else none
    else none
  else some (map, bucket)

structure Process (Thread : Type) where
  isMultithreaded : Bool
  mapForProcess : Map
  /-- `pthread_getspecific(map_key)` -/
  mapOfThread : Thread → Option Map

section

variable {Thread : Type}

def initialProcess (isMultithreaded : Bool) : Process Thread :=
  ⟨isMultithreaded, Map.zero, fun _ => none⟩

def Process.map (process : Process Thread) (thread : Thread) : Map :=
  if process.isMultithreaded then (process.mapOfThread thread).getD Map.zero
  else process.mapForProcess

variable [DecidableEq Thread]

def Process.setMap (process : Process Thread) (thread : Thread) (map : Map) : Process Thread :=
  if process.isMultithreaded then
    { process with mapOfThread := Function.update process.mapOfThread thread (some map) }
  else { process with mapForProcess := map }

def getTLS (thread : Thread) (key : UInt32) (process : Process Thread) : Option (Process Thread × Pointer) :=
  if key > 0 then do
    let (map, place) ← (process.map thread).getValue key
    let value ← map.values[place]?
    return (process.setMap thread map, value)
  else none

def setTLS (thread : Thread) (key : UInt32) (value : Pointer) (process : Process Thread) :
    Option (Process Thread) :=
  if key > 0 then do
    let (map, place) ← (process.map thread).getValue key
    if inside : place < mapSize then
      return process.setMap thread { map with values := map.values.set place value }
    else none
  else none

inductive Call (Thread : Type)
  | get (thread : Thread) (key : UInt32)
  | set (thread : Thread) (key : UInt32) (value : Pointer)

def Call.thread : Call Thread → Thread
  | .get thread _ => thread
  | .set thread _ _ => thread

def Call.key : Call Thread → UInt32
  | .get _ key => key
  | .set _ key _ => key

def step (process : Process Thread) : Call Thread → Option (Process Thread)
  | .get thread key => (getTLS thread key process).map Prod.fst
  | .set thread key value => setTLS thread key value process

def lastSet (thread : Thread) (key : UInt32) (calls : List (Call Thread)) : Pointer :=
  calls.foldl (fun last call =>
    match call with
    | .get _ _ => last
    | .set setter other value => if setter = thread ∧ other = key then value else last) 0

end

end Tls

/-!
Every thread finds the values that it has set, as long as it uses fewer keys than its
map has room for.
-/

namespace Tls

open LinearProbing

namespace Map

def home (key : UInt32) : Nat := key.toNat % mapSize

def table (map : Map) (bucket : Nat) : Option UInt32 := do
  let key ← map.keys[bucket]?
  if key > 0 then some key else none

structure Holds (map : Map) (keys : Finset UInt32) (value : UInt32 → Pointer) : Prop where
  placed : Placed mapSize home map.table
  known : ∀ bucket key, map.table bucket = some key → key ∈ keys
  present : ∀ key ∈ keys, ∃ bucket, map.table bucket = some key
  counted : map.size.toNat = keys.card
  values : ∀ (bucket : Nat) (key : UInt32), map.table bucket = some key →
    map.values[bucket]? = some (value key)
  free : ∀ bucket < mapSize, map.table bucket = none → map.values[bucket]? = some 0

theorem home_lt (key : UInt32) : home key < mapSize := Nat.mod_lt _ (by decide)

variable {map : Map}

theorem table_eq_some {bucket : Nat} {key : UInt32} :
    map.table bucket = some key ↔ map.keys[bucket]? = some key ∧ key > 0 := by
  rw [table, Option.bind_eq_bind, Option.bind_eq_some_iff]
  constructor
  · rintro ⟨other, held, holds⟩
    split at holds
    · rename_i used
      exact Option.some.inj holds ▸ ⟨held, used⟩
    · cases holds
  · rintro ⟨held, used⟩
    exact ⟨key, held, if_pos used⟩

theorem table_eq_none {bucket : Nat} (inside : bucket < mapSize) :
    map.table bucket = none ↔ map.keys[bucket] = 0 := by
  rw [table, Vector.getElem?_eq_getElem inside, Option.bind_eq_bind, Option.bind_some]
  by_cases zero : map.keys[bucket] = 0
  · simp [zero]
  · have used : map.keys[bucket] > 0 := UInt32.pos_iff_ne_zero.mpr zero
    simp [used, zero]

theorem probe_eq_scan (map : Map) (key : UInt32) : ∀ fuel bucket, bucket < mapSize →
    map.probe key fuel bucket = scan mapSize (stopsAt map.table key) fuel bucket := by
  intro fuel
  induction fuel with
  | zero => exact fun _ _ => rfl
  | succ fuel ih =>
    intro bucket inside
    have next : (bucket + 1) % mapSize < mapSize := Nat.mod_lt _ (by decide)
    rw [probe, scan, Vector.getElem?_eq_getElem inside, Option.bind_eq_bind, Option.bind_some, ih _ next]
    by_cases zero : map.keys[bucket] = 0
    · have free := (table_eq_none inside).mpr zero
      simp [stopsAt, free, zero]
    · have used : map.keys[bucket] > 0 := UInt32.pos_iff_ne_zero.mpr zero
      have holds : map.table bucket = some map.keys[bucket] :=
        table_eq_some.mpr ⟨Vector.getElem?_eq_getElem inside, used⟩
      by_cases same : map.keys[bucket] = key
      · simp [stopsAt, holds, same]
      · simp [stopsAt, holds, same, used]

theorem zero_holds : Map.zero.Holds ∅ fun _ => 0 := by
  have empty : Map.zero.table = fun _ => none := by
    funext bucket
    simp only [table, Map.zero, Vector.getElem?_replicate]
    split <;> rfl
  refine ⟨?_, ?_, ?_, rfl, ?_, ?_⟩
  · rw [empty]
    exact placed_empty
  · intro bucket key holds
    rw [empty] at holds
    cases holds
  · intro key member
    cases member
  · intro bucket key holds
    rw [empty] at holds
    cases holds
  · intro bucket inside _
    simp [Map.zero, inside]

variable {place : Nat}

theorem table_set (inside : place < mapSize) {key : UInt32} (nonzero : key > 0) (size : UInt32) :
    table { map with keys := map.keys.set place key, size := size } =
      update map.table place (some key) := by
  funext bucket
  by_cases here : bucket = place
  · rw [here, update_self]
    simp [table, inside, nonzero]
  · rw [update_of_ne here, table, table, Vector.getElem?_set_ne _ (Ne.symm here)]

variable {value : UInt32 → Pointer}

variable {keys : Finset UInt32}

section

variable (holds : map.Holds keys value) {key : UInt32}
include holds

theorem Holds.room_counted (absent : key ∉ keys) (few : (insert key keys).card ≤ mapSize - 2) :
    (map.size + 1).toNat < mapSize - 1 ∧ (map.size + 1).toNat = (insert key keys).card := by
  have counted := holds.counted
  have size : mapSize = 32 := rfl
  rw [Finset.card_insert_of_notMem absent] at few ⊢
  rw [UInt32.toNat_add]
  simp only [UInt32.reduceToNat]
  omega

theorem Holds.insertKey {size : UInt32} (nonzero : key > 0) (inside : place < mapSize)
    (found : find mapSize home map.table key = some place) (isFree : map.table place = none)
    (unset : value key = 0) (counted : size.toNat = (insert key keys).card) :
    Holds { map with keys := map.keys.set place key, size := size } (insert key keys) value := by
  have changed := @table_set map place inside key nonzero size
  refine ⟨?_, ?_, ?_, counted, ?_, ?_⟩
  · rw [changed]
    exact holds.placed.update found
  · intro bucket other there
    rw [changed] at there
    by_cases here : bucket = place
    · rw [here, update_self] at there
      exact Option.some.inj there ▸ Finset.mem_insert_self _ _
    · rw [update_of_ne here] at there
      exact Finset.mem_insert_of_mem (holds.known bucket other there)
  · intro other member
    rw [changed]
    rcases Finset.mem_insert.mp member with rfl | old
    · exact ⟨place, update_self ..⟩
    · obtain ⟨bucket, there⟩ := holds.present other old
      have apart : bucket ≠ place := by
        rintro rfl
        rw [isFree] at there
        cases there
      exact ⟨bucket, (update_of_ne apart ..).trans there⟩
  · intro bucket other there
    rw [changed] at there
    by_cases here : bucket = place
    · rw [here, update_self] at there
      rw [here, holds.free place inside isFree, ← Option.some.inj there, unset]
    · rw [update_of_ne here] at there
      exact holds.values bucket other there
  · intro bucket bucketInside free
    rw [changed] at free
    by_cases here : bucket = place
    · rw [here, update_self] at free
      cases free
    · rw [update_of_ne here] at free
      exact holds.free bucket bucketInside free

theorem Holds.getValue (nonzero : key > 0)
    (unset : key ∉ keys → value key = 0) (few : (insert key keys).card ≤ mapSize - 2) :
    ∃ after place, map.getValue key = some (after, place) ∧
      after.Holds (insert key keys) value ∧ after.table place = some key ∧ place < mapSize := by
  have room : keys.card < mapSize := by
    have within := Finset.card_le_card (Finset.subset_insert key keys)
    have size : mapSize = 32 := rfl
    omega
  obtain ⟨free, freeInside, isFree⟩ := holds.placed.exists_free holds.known room
  obtain ⟨place, found⟩ := find_total home_lt freeInside isFree key
  have inside := find_lt home_lt found
  have probed : map.probe key mapSize (key.toNat % mapSize) = some place :=
    (probe_eq_scan map key _ _ (home_lt key)).trans found
  rcases find_stops found with isFree | own
  · have absent : key ∉ keys := by
      intro member
      obtain ⟨bucket, there⟩ := holds.present key member
      obtain rfl := Option.some.inj (found.symm.trans (holds.placed bucket key there))
      rw [isFree] at there
      cases there
    obtain ⟨size, longer⟩ := Holds.room_counted holds absent few
    refine ⟨_, place, ?_, holds.insertKey nonzero inside found isFree (unset absent) longer, ?_, inside⟩
    · simp only [Map.getValue, probed, Option.bind_eq_bind, Option.bind_some,
        Vector.getElem?_eq_getElem inside, (table_eq_none inside).mp isFree, if_true,
        dif_pos inside, if_pos size]
    · rw [table_set inside nonzero, update_self]
  · obtain ⟨held, _⟩ := table_eq_some.mp own
    have present : insert key keys = keys := Finset.insert_eq_of_mem (holds.known place key own)
    refine ⟨map, place, ?_, present.symm ▸ holds, own, inside⟩
    have used : key ≠ 0 := UInt32.pos_iff_ne_zero.mp nonzero
    simp [Map.getValue, probed, held, used]

theorem Holds.setValue (inside : place < mapSize) (own : map.table place = some key) (new : Pointer) :
    Holds { map with values := map.values.set place new } keys (update value key new) where
  placed := holds.placed
  known := holds.known
  present := holds.present
  counted := holds.counted
  values bucket other there := by
    by_cases here : bucket = place
    · obtain rfl : key = other := Option.some.inj (own.symm.trans (here ▸ there))
      rw [here, update_self]
      simp [inside]
    · have apart : other ≠ key := by
        rintro rfl
        exact here (holds.placed.eq_of_same there own)
      rw [update_of_ne apart, Vector.getElem?_set_ne _ (Ne.symm here)]
      exact holds.values bucket other there
  free bucket bucketInside free := by
    have apart : bucket ≠ place := by
      rintro rfl
      exact absurd (own.symm.trans free) (by simp)
    rw [Vector.getElem?_set_ne _ (Ne.symm apart)]
    exact holds.free bucket bucketInside free

end

end Map

section

variable {Thread : Type} [DecidableEq Thread]

def keysOf (thread : Thread) (calls : List (Call Thread)) : Finset UInt32 :=
  ((calls.filter fun call => call.thread = thread).map Call.key).toFinset

theorem keysOf_append (thread : Thread) (seen : List (Call Thread)) (call : Call Thread) :
    keysOf thread (seen ++ [call]) = if call.thread = thread then insert call.key (keysOf thread seen)
      else keysOf thread seen := by
  rw [keysOf, List.filter_append, List.map_append, List.toFinset_append]
  by_cases own : call.thread = thread
  · rw [if_pos own, List.filter_singleton, decide_eq_true own, cond_true, Finset.union_comm]
    rfl
  · rw [if_neg own, List.filter_singleton, decide_eq_false own, cond_false]
    exact Finset.union_empty _

theorem keysOf_mono (thread : Thread) (first second : List (Call Thread)) :
    keysOf thread first ⊆ keysOf thread (first ++ second) := by
  intro key member
  rw [keysOf, List.mem_toFinset] at member ⊢
  rw [List.filter_append, List.map_append]
  exact List.mem_append_left _ member

variable {seen : List (Call Thread)}

theorem lastSet_eq_zero {thread : Thread} {key : UInt32}
    (absent : key ∉ keysOf thread seen) : lastSet thread key seen = 0 := by
  induction seen using List.reverseRecOn with
  | nil => rfl
  | append_singleton seen call ih =>
    have before := ih fun member => absent (keysOf_mono thread seen [call] member)
    rw [lastSet, List.foldl_concat, ← lastSet, before]
    cases call with
    | get _ _ => rfl
    | set setter other value =>
      refine if_neg fun same => absent ?_
      have own : (Call.set setter other value).thread = thread := same.1
      rw [keysOf_append, if_pos own]
      exact Finset.mem_insert.mpr (.inl same.2.symm)

theorem map_setMap (process : Process Thread) (thread other : Thread) (map : Map) :
    (process.setMap thread map).map other =
      if process.isMultithreaded ∧ other ≠ thread then process.map other else map := by
  unfold Process.setMap Process.map
  cases multi : process.isMultithreaded with
  | false => simp
  | true =>
    by_cases same : other = thread
    · simp [same]
    · simp [same]

structure Faithful (multithreaded : Bool) (InUse : Thread → Prop) (seen : List (Call Thread))
    (process : Process Thread) : Prop where
  flag : process.isMultithreaded = multithreaded
  holds : ∀ thread, InUse thread →
    (process.map thread).Holds (keysOf thread seen) fun key => lastSet thread key seen

variable {multithreaded : Bool} {InUse : Thread → Prop}

theorem initialProcess_faithful : Faithful multithreaded InUse [] (initialProcess multithreaded) where
  flag := rfl
  holds thread _ := by
    have zero : (initialProcess multithreaded).map thread = Map.zero := by
      cases multithreaded <;> rfl
    rw [zero]
    exact Map.zero_holds

variable {process : Process Thread}

theorem Faithful.setMap
    (faithful : Faithful multithreaded InUse seen process) {call : Call Thread} {map : Map}
    (alone : multithreaded = false → ∀ thread, InUse thread → call.thread = thread)
    (holds : map.Holds (insert call.key (keysOf call.thread seen)) fun key =>
      lastSet call.thread key (seen ++ [call])) (others : ∀ thread key, call.thread ≠ thread →
      lastSet thread key (seen ++ [call]) = lastSet thread key seen) :
    Faithful multithreaded InUse (seen ++ [call]) (process.setMap call.thread map) where
  flag := by
    rw [← faithful.flag, Process.setMap]
    split <;> rfl
  holds thread inUse := by
    rw [map_setMap, keysOf_append, faithful.flag]
    by_cases own : call.thread = thread
    · subst own
      rw [if_neg (fun apart => apart.2 rfl), if_pos rfl]
      exact holds
    · have multi : multithreaded = true := by
        cases flag : multithreaded with
        | false => exact absurd (alone flag thread inUse) own
        | true => rfl
      rw [if_pos ⟨multi, Ne.symm own⟩, if_neg own]
      have same : (fun key => lastSet thread key (seen ++ [call])) =
          fun key => lastSet thread key seen := funext fun key => others thread key own
      rw [same]
      exact faithful.holds thread inUse

section

variable (faithful : Faithful multithreaded InUse seen process) {thread : Thread} {key : UInt32}
  (nonzero : key > 0) (inUse : InUse thread)
  (few : (insert key (keysOf thread seen)).card ≤ mapSize - 2)
  (alone : multithreaded = false → ∀ other, InUse other → thread = other)
include faithful nonzero inUse few alone

theorem Faithful.get : ∃ next, getTLS thread key process = some (next, lastSet thread key seen) ∧
      Faithful multithreaded InUse (seen ++ [.get thread key]) next := by
  have kept : ∀ other key', lastSet other key' (seen ++ [.get thread key]) = lastSet other key' seen := by
    intro other key'
    rw [lastSet, List.foldl_concat]
    rfl
  obtain ⟨map, place, found, holds, own, _⟩ :=
    (faithful.holds thread inUse).getValue nonzero lastSet_eq_zero few
  refine ⟨process.setMap thread map, ?_,
    @Faithful.setMap _ _ _ _ _ _ faithful (.get thread key) map alone ?_ fun other key' _ => kept other key'⟩
  · simp [getTLS, nonzero, found, holds.values place key own]
  · have same : (fun key' => lastSet thread key' (seen ++ [.get thread key])) =
        fun key' => lastSet thread key' seen := funext fun key' => kept thread key'
    exact same ▸ holds

theorem Faithful.set (value : Pointer) : ∃ next, setTLS thread key value process = some next ∧
      Faithful multithreaded InUse (seen ++ [.set thread key value]) next := by
  have changed : ∀ other key', lastSet other key' (seen ++ [.set thread key value]) =
      if thread = other ∧ key = key' then value else lastSet other key' seen := by
    intro other key'
    rw [lastSet, List.foldl_concat]
    rfl
  obtain ⟨map, place, found, holds, own, inside⟩ :=
    (faithful.holds thread inUse).getValue nonzero lastSet_eq_zero few
  refine ⟨process.setMap thread { map with values := map.values.set place value }, ?_,
    @Faithful.setMap _ _ _ _ _ _ faithful (.set thread key value) _ alone ?_ fun other key' apart => ?_⟩
  · simp [setTLS, nonzero, found, inside]
  · have same : (fun key' => lastSet thread key' (seen ++ [.set thread key value])) =
        update (fun key' => lastSet thread key' seen) key value := by
      funext key'
      rw [changed]
      by_cases here : key' = key
      · rw [here, update_self, if_pos ⟨rfl, rfl⟩]
      · rw [update_of_ne here, if_neg fun same => here same.2.symm]
    change Map.Holds _ _ fun key' => lastSet thread key' (seen ++ [.set thread key value])
    rw [same]
    exact holds.setValue inside own value
  · rw [changed, if_neg fun same => apart same.1]

end

/-- No call of a run fails, and a thread gets what it has set last. -/
theorem getTLS_returns_last (multithreaded : Bool) (calls : List (Call Thread))
    (nonzero : ∀ call ∈ calls, call.key > 0)
    (few : ∀ thread, (keysOf thread calls).card ≤ mapSize - 2)
    (single : multithreaded = false → ∀ first ∈ calls, ∀ second ∈ calls, first.thread = second.thread) :
    (∃ final, Runs.run step (initialProcess multithreaded) calls = some final) ∧
      ∀ before thread key after, calls = before ++ .get thread key :: after →
        ∃ middle next, Runs.run step (initialProcess multithreaded) before = some middle ∧
          getTLS thread key middle = some (next, lastSet thread key before) := by
  let InUse : Thread → Prop := fun thread => ∃ call ∈ calls, call.thread = thread
  have accesses : ∀ (seen : List (Call Thread)) call rest, calls = seen ++ call :: rest →
      call.key > 0 ∧ InUse call.thread ∧
        (multithreaded = false → ∀ other, InUse other → call.thread = other) ∧
        (insert call.key (keysOf call.thread seen)).card ≤ mapSize - 2 := by
    intro seen call rest split
    have member : call ∈ calls := by rw [split]; simp
    refine ⟨nonzero call member, ⟨call, member, rfl⟩, ?_, ?_⟩
    · rintro flag other ⟨second, inCalls, rfl⟩
      exact single flag call member second inCalls
    · have used : insert call.key (keysOf call.thread seen) ⊆ keysOf call.thread calls := by
        have here := keysOf_append call.thread seen call
        rw [if_pos rfl] at here
        have longer := keysOf_mono call.thread (seen ++ [call]) rest
        rw [List.append_assoc, List.singleton_append] at longer
        rwa [← here, split]
      exact (Finset.card_le_card used).trans (few call.thread)
  have stays : ∀ seen call rest process, calls = seen ++ call :: rest →
      Faithful multithreaded InUse seen process → ∃ next, step process call = some next ∧
        Faithful multithreaded InUse (seen ++ [call]) next := by
    intro seen call rest process split faithful
    obtain ⟨called, inUse, alone, fewNow⟩ := accesses seen call rest split
    cases call with
    | get thread key =>
      obtain ⟨next, got, after⟩ :=
        @Faithful.get _ _ _ _ _ _ faithful thread key called inUse fewNow alone
      exact ⟨next, by rw [step, got]; rfl, after⟩
    | set thread key value => exact faithful.set called inUse fewNow alone value
  have start : Faithful multithreaded InUse [] (initialProcess multithreaded) :=
    initialProcess_faithful
  constructor
  · obtain ⟨final, ran, _⟩ := Runs.run_total (Faithful multithreaded InUse) start stays
    exact ⟨final, ran⟩
  · intro before thread key after split
    obtain ⟨middle, ran, faithful⟩ : ∃ middle,
        Runs.run step (initialProcess multithreaded) before = some middle ∧
          Faithful multithreaded InUse before middle := by
      refine Runs.run_total (Faithful multithreaded InUse) start ?_
      intro seen call rest process here
      refine stays seen call (rest ++ .get thread key :: after) process ?_
      rw [split, here, List.append_assoc, List.cons_append]
    obtain ⟨called, inUse, alone, fewNow⟩ := accesses before (.get thread key) after split
    obtain ⟨next, got, _⟩ :=
      @Faithful.get _ _ _ _ _ _ faithful thread key called inUse fewNow alone
    exact ⟨middle, next, ran, got⟩

theorem getTLS_returns_last_collision :
    ∃ middle next, Runs.run step (initialProcess true)
        [.set true 1 7, .set true 33 8, .set false 1 9, .get true 33] = some middle ∧
      getTLS true 1 middle = some (next, 7) :=
  (getTLS_returns_last true
    [.set true 1 7, .set true 33 8, .set false 1 9, .get true 33, .get true 1]
    (by decide) (by decide) (by decide)).2
    [.set true 1 7, .set true 33 8, .set false 1 9, .get true 33] true 1 [] rfl

end

end Tls

end OpenSpeedShop
