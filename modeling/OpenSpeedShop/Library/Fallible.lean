import Mathlib.Data.List.Forall2

/-!
Computations that may fail, and the loop that appends what each of its rounds
gives.
-/

namespace Fallible

open List (mapM_cons foldlM_cons mem_cons_of_mem mem_cons_self map_cons)
open Option (bind_eq_some_iff)

variable {Error Value Next Item : Type}

def check (condition : Bool) (error : Error) : Except Error Unit :=
  if condition then .ok () else .error error

/-- `for(...) if(test(i)) found = i` -/
def keepLast (test : Nat → Option Bool) (found : Option Nat) (i : Nat) : Option (Option Nat) :=
  (test i).map fun hit => if hit then some i else found

/-- `for(...) if(test(i)) return i` -/
def findFirst (test : Nat → Option Bool) : List Nat → Option (Option Nat)
  | [] => some none
  | i :: rest => (test i).bind fun hit => if hit then some (some i) else findFirst test rest

def gather (body : Item → Option (List Value)) (items : List Item) : Option (List Value) :=
  (items.mapM body).map List.flatten

/-- `for(item in items) values.append(body(item))` -/
def collect (body : Item → Except Error (List Value)) (items : List Item) : Except Error (List Value) :=
  items.foldlM (fun values item => do return values ++ (← body item)) []

@[simp] theorem ok_bind (value : Value) (next : Value → Except Error Next) :
    ((.ok value : Except Error Value) >>= next) = next value := rfl

@[simp] theorem error_bind (error : Error) (next : Value → Except Error Next) :
    ((.error error : Except Error Value) >>= next) = .error error := rfl

@[simp] theorem check_true (error : Error) : check true error = .ok () := rfl

theorem check_eq_ok {condition : Bool} {error : Error} {value : Unit} :
    check condition error = .ok value ↔ condition = true := by
  cases condition <;> simp [check]

theorem bind_eq_ok {first : Except Error Value} {next : Value → Except Error Next}
    {result : Next} : (first >>= next) = .ok result ↔
      ∃ value, first = .ok value ∧ next value = .ok result := by
  cases first <;> simp

theorem toOption_eq_some {body : Except Error Value} {value : Value} :
    body.toOption = some value ↔ body = .ok value := by
  cases body <;> simp [Except.toOption]

def Ends (allowed : Error → Prop) (post : Value → Prop) : Except Error Value → Prop
  | .ok value => post value
  | .error error => allowed error

theorem Ends.bind {allowed : Error → Prop} {post : Value → Prop} {after : Next → Prop}
    {first : Except Error Value} {next : Value → Except Error Next}
    (ends : Ends allowed post first) (rest : ∀ value, post value → Ends allowed after (next value)) :
    Ends allowed after (first >>= next) := by
  cases first with
  | ok value => exact rest value ends
  | error error => exact ends

theorem Ends.mono {allowed : Error → Prop} {post weaker : Value → Prop}
    {body : Except Error Value} (ends : Ends allowed post body)
    (weakens : ∀ value, post value → weaker value) : Ends allowed weaker body := by
  cases body with
  | ok value => exact weakens value ends
  | error error => exact ends

theorem Ends.foldlM {State : Type} {allowed : Error → Prop} {Invariant : State → Prop}
    {body : State → Item → Except Error State} {items : List Item}
    (each : ∀ state, Invariant state → ∀ item ∈ items, Ends allowed Invariant (body state item)) :
    ∀ {state : State}, Invariant state → Ends allowed Invariant (items.foldlM body state) := by
  induction items with
  | nil => exact fun initial => initial
  | cons item rest ih =>
    intro state initial
    rw [foldlM_cons]
    exact (each state initial item mem_cons_self).bind fun next kept =>
      ih (fun other held another member => each other held another (mem_cons_of_mem item member)) kept

theorem mapM_eq_some {body : Item → Option Value} {result : Item → Value} {items : List Item}
    (each : ∀ item ∈ items, body item = some (result item)) : items.mapM body = some (items.map result) := by
  induction items with
  | nil => rfl
  | cons item rest ih =>
    have first := each item (by simp)
    have others := ih fun other member => each other (by simp [member])
    simp [mapM_cons, first, others]

theorem mapM_eq_filterMap {body : Item → Option Value} {items : List Item}
    (each : ∀ item ∈ items, (body item).isSome) : items.mapM body = some (items.filterMap body) := by
  induction items with
  | nil => rfl
  | cons item rest ih =>
    obtain ⟨value, found⟩ := Option.isSome_iff_exists.mp (each item mem_cons_self)
    have others := ih fun other member => each other (mem_cons_of_mem _ member)
    rw [mapM_cons, found, others, List.filterMap_cons, found]
    rfl

theorem length_of_mapM {body : Item → Option Value} {items : List Item} :
    ∀ {values : List Value}, items.mapM body = some values → values.length = items.length := by
  induction items with
  | nil =>
    intro values ran
    obtain rfl := Option.some.inj ran
    rfl
  | cons item rest ih =>
    intro values ran
    rw [mapM_cons] at ran
    obtain ⟨value, _, others⟩ := bind_eq_some_iff.mp ran
    obtain ⟨more, remaining, returned⟩ := bind_eq_some_iff.mp others
    obtain rfl := Option.some.inj returned
    rw [List.length_cons, List.length_cons, ih remaining]

theorem mapM_mono {body other : Item → Option Value}
    (mono : ∀ item value, body item = some value → other item = some value) {items : List Item} :
    ∀ {values : List Value}, items.mapM body = some values → items.mapM other = some values := by
  induction items with
  | nil => exact fun ran => ran
  | cons item rest ih =>
    intro values ran
    rw [mapM_cons] at ran ⊢
    obtain ⟨value, first, others⟩ := bind_eq_some_iff.mp ran
    obtain ⟨more, remaining, returned⟩ := bind_eq_some_iff.mp others
    obtain rfl := Option.some.inj returned
    simp [mono item value first, ih remaining]

theorem map_of_mapM {Shown : Type} {body : Item → Option Value} {before : Item → Shown}
    {after : Value → Shown} (each : ∀ item value, body item = some value → after value = before item)
    {items : List Item} :
    ∀ {values : List Value}, items.mapM body = some values → values.map after = items.map before := by
  induction items with
  | nil =>
    intro values ran
    obtain rfl := Option.some.inj ran
    rfl
  | cons item rest ih =>
    intro values ran
    rw [mapM_cons] at ran
    obtain ⟨value, here, others⟩ := bind_eq_some_iff.mp ran
    obtain ⟨more, remaining, returned⟩ := bind_eq_some_iff.mp others
    obtain rfl := Option.some.inj returned
    rw [map_cons, map_cons, each item value here, ih remaining]

theorem gather_snoc (body : Item → Option (List Value)) (items : List Item) (item : Item) :
    gather body (items ++ [item]) = (gather body items).bind fun values => (body item).map (values ++ ·) := by
  rw [gather, gather, List.mapM_append]
  cases items.mapM body with
  | none => rfl
  | some lists => cases ran : body item <;> simp [ran]

theorem mem_of_mapM {body : Item → Option Value} {items : List Item} :
    ∀ {values : List Value}, items.mapM body = some values → ∀ value ∈ values,
      ∃ item ∈ items, body item = some value := by
  induction items with
  | nil =>
    intro values ran value member
    obtain rfl := Option.some.inj ran
    cases member
  | cons item rest ih =>
    intro values ran value member
    rw [mapM_cons] at ran
    obtain ⟨first, here, others⟩ := bind_eq_some_iff.mp ran
    obtain ⟨more, remaining, returned⟩ := bind_eq_some_iff.mp others
    obtain rfl := Option.some.inj returned
    rcases List.mem_cons.mp member with rfl | later
    · exact ⟨item, mem_cons_self, here⟩
    · obtain ⟨source, inRest, gives⟩ := ih remaining value later
      exact ⟨source, mem_cons_of_mem _ inRest, gives⟩

theorem mem_of_gather {body : Item → Option (List Value)} {items : List Item}
    {values : List Value} (ran : gather body items = some values) {value : Value}
    (member : value ∈ values) : ∃ item ∈ items, ∃ more, body item = some more ∧ value ∈ more := by
  obtain ⟨lists, found, rfl⟩ := Option.map_eq_some_iff.mp ran
  obtain ⟨more, inLists, inMore⟩ := List.mem_flatten.mp member
  obtain ⟨item, inItems, gives⟩ := mem_of_mapM found more inLists
  exact ⟨item, inItems, more, gives, inMore⟩

theorem value_of_mapM {body : Item → Option Value} {items : List Item} :
    ∀ {values : List Value}, items.mapM body = some values → ∀ item ∈ items,
      ∃ value ∈ values, body item = some value := by
  induction items with
  | nil =>
    intro values ran item member
    cases member
  | cons first rest ih =>
    intro values ran item member
    rw [mapM_cons] at ran
    obtain ⟨value, here, others⟩ := bind_eq_some_iff.mp ran
    obtain ⟨more, remaining, returned⟩ := bind_eq_some_iff.mp others
    obtain rfl := Option.some.inj returned
    rcases List.mem_cons.mp member with rfl | later
    · exact ⟨value, mem_cons_self, here⟩
    · obtain ⟨found, inRest, gives⟩ := ih remaining item later
      exact ⟨found, mem_cons_of_mem _ inRest, gives⟩

theorem mapM_isSome {body : Item → Option Value} {items : List Item} :
    (∃ values, items.mapM body = some values) ↔ ∀ item ∈ items, ∃ value, body item = some value := by
  constructor
  · rintro ⟨values, ran⟩ item member
    obtain ⟨value, -, gives⟩ := value_of_mapM ran item member
    exact ⟨value, gives⟩
  · intro each
    induction items with
    | nil => exact ⟨[], rfl⟩
    | cons item rest ih =>
      obtain ⟨value, here⟩ := each item mem_cons_self
      obtain ⟨values, others⟩ := ih fun other member => each other (mem_cons_of_mem _ member)
      exact ⟨value :: values, by simp [mapM_cons, here, others]⟩

theorem mapM_forall₂ {body : Item → Option Value} {wanted : Item → Value → Prop} {items : List Item} :
    (∃ values, items.mapM body = some values ∧ List.Forall₂ wanted items values) ↔
      ∀ item ∈ items, ∃ value, body item = some value ∧ wanted item value := by
  induction items with
  | nil => exact ⟨fun _ _ member => absurd member List.not_mem_nil, fun _ => ⟨[], rfl, .nil⟩⟩
  | cons item rest ih =>
    rw [List.forall_mem_cons, ← ih]
    constructor
    · rintro ⟨values, ran, each⟩
      rw [mapM_cons] at ran
      obtain ⟨value, here, others⟩ := bind_eq_some_iff.mp ran
      obtain ⟨more, remaining, returned⟩ := bind_eq_some_iff.mp others
      obtain rfl := Option.some.inj returned
      rw [List.forall₂_cons] at each
      exact ⟨⟨value, here, each.1⟩, more, remaining, each.2⟩
    · rintro ⟨⟨value, here, first⟩, more, remaining, others⟩
      exact ⟨value :: more, by simp [mapM_cons, here, remaining], .cons first others⟩

theorem gather_empty {body : Item → Option (List Value)}
    (empty : ∀ item values, body item = some values → values = []) {items : List Item}
    {values : List Value} : gather body items = some values ↔
      values = [] ∧ ∀ item ∈ items, body item = some [] := by
  constructor
  · intro ran
    obtain ⟨lists, found, rfl⟩ := Option.map_eq_some_iff.mp ran
    refine ⟨?_, fun item member => ?_⟩
    · rw [List.flatten_eq_nil_iff]
      intro list member
      obtain ⟨item, -, gives⟩ := mem_of_mapM found list member
      exact empty item list gives
    · obtain ⟨list, -, gives⟩ := value_of_mapM found item member
      rw [gives, empty item list gives]
  · rintro ⟨rfl, each⟩
    have lists : items.mapM body = some (items.map fun _ => []) := mapM_eq_some each
    rw [gather, lists]
    simp

theorem foldlM_stuck {State : Type} {step : State → Item → Option State}
    {good : State → Prop} {items : List Item} {item : Item} (member : item ∈ items)
    (kept : ∀ state other next, good state → step state other = some next → good next)
    (stuck : ∀ state, good state → step state item = none) :
    ∀ state, good state → items.foldlM step state = none := by
  induction items with
  | nil => cases member
  | cons head rest ih =>
    intro state fine
    rw [foldlM_cons]
    cases member with
    | head =>
      rw [stuck state fine]
      rfl
    | tail _ member =>
      cases ran : step state head with
      | none => rfl
      | some next => exact ih member next (kept state head next fine ran)

inductive LastFound (test : Nat → Option Bool) (bound : Nat) : Option (Option Nat) → Prop
  | stuck (place : Nat) (inside : place < bound) (fails : test place = none) : LastFound test bound none
  | missed (fails : ∀ i < bound, test i = some false) : LastFound test bound (some none)
  | found (place : Nat) (inside : place < bound) (hit : test place = some true)
      (last : ∀ i < bound, place < i → test i = some false) (ran : ∀ i < bound, test i ≠ none) :
      LastFound test bound (some (some place))

theorem lastFound_keepLast (test : Nat → Option Bool) (bound : Nat) :
    LastFound test bound ((List.range bound).foldlM (keepLast test) none) := by
  induction bound with
  | zero => exact .missed fun i inside => absurd inside (Nat.not_lt_zero i)
  | succ bound ih =>
    rw [List.range_succ, List.foldlM_append]
    generalize (List.range bound).foldlM (keepLast test) none = result at ih ⊢
    cases ih with
    | stuck place inside fails => exact .stuck place (Nat.lt_succ_of_lt inside) fails
    | missed fails =>
      have last : (some none : Option (Option Nat)) >>= ([bound].foldlM (keepLast test)) =
          (test bound).map fun hit => if hit then some bound else none := by
        simp [keepLast]
      rw [last]
      cases tested : test bound with
      | none => exact .stuck bound (Nat.lt_succ_self bound) tested
      | some hit =>
        cases hit with
        | false =>
          refine .missed fun i inside => ?_
          rcases Nat.lt_succ_iff_lt_or_eq.mp inside with before | rfl
          · exact fails i before
          · exact tested
        | true =>
          refine .found bound (Nat.lt_succ_self bound) tested (fun i inside after => ?_) fun i inside => ?_
          · omega
          · rcases Nat.lt_succ_iff_lt_or_eq.mp inside with before | rfl
            · simp [fails i before]
            · simp [tested]
    | found place inside hit last ran =>
      have step : (some (some place)) >>= ([bound].foldlM (keepLast test)) =
          (test bound).map fun hit => if hit then some bound else some place := by
        simp [keepLast]
      rw [step]
      cases tested : test bound with
      | none => exact .stuck bound (Nat.lt_succ_self bound) tested
      | some again =>
        have allRan : ∀ i < bound + 1, test i ≠ none := by
          intro i bounded
          rcases Nat.lt_succ_iff_lt_or_eq.mp bounded with before | rfl
          · exact ran i before
          · simp [tested]
        cases again with
        | false =>
          refine .found place (Nat.lt_succ_of_lt inside) hit (fun i bounded after => ?_) allRan
          rcases Nat.lt_succ_iff_lt_or_eq.mp bounded with before | rfl
          · exact last i before after
          · exact tested
        | true =>
          exact .found bound (Nat.lt_succ_self bound) tested (fun i inside after => by omega) allRan

inductive FirstFound (test : Nat → Option Bool) (bound : Nat) : Option (Option Nat) → Prop
  | stuck (place : Nat) (inside : place < bound) (fails : test place = none)
      (before : ∀ i < place, test i = some false) : FirstFound test bound none
  | missed (fails : ∀ i < bound, test i = some false) : FirstFound test bound (some none)
  | found (place : Nat) (inside : place < bound) (hit : test place = some true)
      (before : ∀ i < place, test i = some false) : FirstFound test bound (some (some place))

theorem findFirst_concat (test : Nat → Option Bool) (places : List Nat) (last : Nat) :
    findFirst test (places ++ [last]) = (findFirst test places).bind fun found => match found with
      | some i => some (some i)
      | none => (test last).map fun hit => if hit then some last else none := by
  induction places with
  | nil =>
    cases tested : test last with
    | none => simp [findFirst, tested]
    | some hit => cases hit <;> simp [findFirst, tested]
  | cons i rest ih =>
    rw [List.cons_append, findFirst, findFirst]
    cases tested : test i with
    | none => rfl
    | some hit =>
      cases hit with
      | false => exact ih
      | true => rfl

theorem firstFound_findFirst (test : Nat → Option Bool) (bound : Nat) :
    FirstFound test bound (findFirst test (List.range bound)) := by
  induction bound with
  | zero => exact .missed fun i inside => absurd inside (Nat.not_lt_zero i)
  | succ bound ih =>
    rw [List.range_succ, findFirst_concat]
    generalize findFirst test (List.range bound) = result at ih ⊢
    cases ih with
    | stuck place inside fails before =>
      exact .stuck place (Nat.lt_succ_of_lt inside) fails before
    | found place inside hit before =>
      exact .found place (Nat.lt_succ_of_lt inside) hit before
    | missed fails =>
      rw [Option.bind_some]
      cases tested : test bound with
      | none => exact .stuck bound (Nat.lt_succ_self bound) tested fails
      | some hit =>
        cases hit with
        | true => exact .found bound (Nat.lt_succ_self bound) tested fails
        | false =>
          refine .missed fun i inside => ?_
          rcases Nat.lt_succ_iff_lt_or_eq.mp inside with before | rfl
          · exact fails i before
          · exact tested

theorem mapM_eq_ok {body : Item → Except Error Value} {items : List Item} :
    ∀ {values : List Value}, items.mapM body = .ok values ↔
      List.Forall₂ (fun item value => body item = .ok value) items values := by
  induction items with
  | nil =>
    intro values
    rw [List.mapM_nil, List.forall₂_nil_left_iff]
    exact ⟨fun same => (Except.ok.inj same).symm, fun same => by rw [same]; rfl⟩
  | cons item rest ih =>
    intro values
    rw [mapM_cons]
    constructor
    · intro ran
      obtain ⟨value, first, others⟩ := bind_eq_ok.mp ran
      obtain ⟨more, remaining, returned⟩ := bind_eq_ok.mp others
      obtain rfl := Except.ok.inj returned
      exact .cons first (ih.mp remaining)
    · intro each
      cases each with
      | cons first remaining =>
        rw [first, ok_bind, ih.mpr remaining]
        rfl

def given : Except Error (List Value) → List Value
  | .ok values => values
  | .error _ => []

theorem given_of_ok {body : Except Error (List Value)} {values : List Value}
    (ran : body = .ok values) : given body = values := by
  rw [ran]
  rfl

theorem foldlM_total {State : Type} {step : State → Item → Except Error State} {items : List Item}
    (each : ∀ state, ∀ item ∈ items, ∃ next, step state item = .ok next) :
    ∀ start, ∃ final, items.foldlM step start = .ok final := by
  induction items with
  | nil => exact fun start => ⟨start, rfl⟩
  | cons item rest ih =>
    intro start
    obtain ⟨middle, stepped⟩ := each start item (by simp)
    obtain ⟨final, ran⟩ := ih (fun state other member => each state other (by simp [member])) middle
    exact ⟨final, by rw [foldlM_cons, stepped]; exact ran⟩

theorem foldlM_returns_iff {State : Type} {step : State → Item → Except Error State}
    {returns : Item → Prop} {items : List Item}
    (each : ∀ item ∈ items, ∀ state, (∃ next, step state item = .ok next) ↔ returns item) :
    ∀ start, (∃ final, items.foldlM step start = .ok final) ↔ ∀ item ∈ items, returns item := by
  induction items with
  | nil => exact fun start => ⟨fun _ => by simp, fun _ => ⟨start, rfl⟩⟩
  | cons item rest ih =>
    intro start
    have later := ih fun other member => each other (mem_cons_of_mem _ member)
    rw [List.forall_mem_cons, ← each item (by simp) start]
    constructor
    · rintro ⟨final, ran⟩
      rw [foldlM_cons] at ran
      obtain ⟨middle, stepped, continued⟩ := bind_eq_ok.mp ran
      exact ⟨⟨middle, stepped⟩, (later middle).mp ⟨final, continued⟩⟩
    · rintro ⟨⟨middle, stepped⟩, others⟩
      obtain ⟨final, continued⟩ := (later middle).mpr others
      exact ⟨final, by rw [foldlM_cons, stepped]; exact continued⟩

theorem collect_from (body : Item → Except Error (List Value)) (items : List Item) :
    ∀ (start values : List Value),
    items.foldlM (fun values item => do return values ++ (← body item)) start = .ok values ↔
      (∀ item ∈ items, ∃ more, body item = .ok more) ∧
        values = start ++ items.flatMap fun item => given (body item) := by
  induction items with
  | nil =>
    intro start values
    have returned : (pure start : Except Error (List Value)) = .ok values ↔ values = start :=
      ⟨fun same => (Except.ok.inj same).symm, fun same => by rw [same]; rfl⟩
    simpa using returned
  | cons item rest ih =>
    intro start values
    rw [foldlM_cons]
    cases ran : body item with
    | error error => simp [ran]
    | ok more =>
      have stepped : (do return start ++ (← (.ok more : Except Error (List Value)))) =
          (.ok (start ++ more) : Except Error (List Value)) := rfl
      rw [stepped, ok_bind, ih]
      simp [ran, given]

theorem collect_eq_ok {body : Item → Except Error (List Value)} {items : List Item}
    {values : List Value} : collect body items = .ok values ↔ (∀ item ∈ items, ∃ more, body item = .ok more) ∧
        values = items.flatMap fun item => given (body item) := by
  rw [collect, collect_from]
  simp

theorem collect_total {body : Item → Except Error (List Value)} {items : List Item}
    (ran : ∀ item ∈ items, ∃ more, body item = .ok more) :
    collect body items = .ok (items.flatMap fun item => given (body item)) :=
  collect_eq_ok.mpr ⟨ran, rfl⟩

theorem collect_eq_flatMap {body : Item → Except Error (List Value)} {result : Item → List Value}
    {items : List Item} (each : ∀ item ∈ items, body item = .ok (result item)) :
    collect body items = .ok (items.flatMap result) := by
  rw [collect_total fun item member => ⟨_, each item member⟩]
  exact congrArg Except.ok (List.flatMap_congr fun item member => given_of_ok (each item member))

theorem ok_of_image {Value' : Type} {image : List Value → List Value'}
    {body : Except Error (List Value)} {other : Except Error (List Value')}
    (same : other.toOption = body.toOption.map image) :
    (∀ values, body = .ok values → other = .ok (image values)) ∧
      ∀ values, other = .ok values → ∃ source, body = .ok source ∧ values = image source := by
  cases body with
  | error error =>
    cases other with
    | error error => simp
    | ok values => cases same
  | ok source =>
    cases other with
    | error error => cases same
    | ok values =>
      have result : values = image source := Option.some.inj same
      simp [result]

theorem collect_image {Item' Value' : Type} {image : List Value → List Value'}
    (empty : image [] = []) (append : ∀ first second, image (first ++ second) = image first ++ image second)
    {body : Item → Except Error (List Value)} {other : Item' → Except Error (List Value')}
    {place : Item → Item'} {items : List Item}
    (each : ∀ item ∈ items, (other (place item)).toOption = (body item).toOption.map image) :
    (collect other (items.map place)).toOption = (collect body items).toOption.map image := by
  have from_ : ∀ start, ((items.map place).foldlM
        (fun values item => do return values ++ (← other item)) (image start)).toOption =
      (items.foldlM (fun values item => do return values ++ (← body item)) start).toOption.map
        image := by
    induction items with
    | nil => exact fun _ => rfl
    | cons item rest ih =>
      intro start
      have first := each item (by simp)
      rw [map_cons, foldlM_cons, foldlM_cons]
      cases ran : body item with
      | error error =>
        rw [ran] at first
        cases ranOther : other (place item) with
        | error error => rfl
        | ok more =>
          rw [ranOther] at first
          cases first
      | ok more =>
        rw [ran] at first
        cases ranOther : other (place item) with
        | error error =>
          rw [ranOther] at first
          cases first
        | ok moreOther =>
          rw [ranOther] at first
          have same : moreOther = image more := Option.some.inj first
          have next := ih (fun item member => each item (by simp [member])) (start ++ more)
          rw [append, ← same] at next
          exact next
  have whole := from_ []
  rw [empty] at whole
  exact whole

end Fallible
