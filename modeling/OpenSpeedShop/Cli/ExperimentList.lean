import Mathlib.Data.List.Nodup
import Mathlib.Data.List.Pairwise
import Mathlib.Order.Nat
import OpenSpeedShop.Cli.ExperimentListCore

/-! What a run of commands keeps of the list, and when. -/

namespace OpenSpeedShop.ExperimentList

@[simp] theorem experimentFocus_registry (state : State) (window : CMDWID) :
    (state.experimentFocus window).2.toRegistry = state.toRegistry := by
  unfold State.experimentFocus
  split
  · rfl
  · rfl
  · dsimp only
    split <;> rfl

theorem findSpecifiedExperiment_registry (state : State) (window : CMDWID) (expId : Option EXPID) :
    (state.findSpecifiedExperiment window expId).2.toRegistry = state.toRegistry := by
  unfold State.findSpecifiedExperiment
  by_cases unspecified : expId.getD 0 = 0
  · simp only [unspecified, ↓reduceIte, experimentFocus_registry]
  · simp only [unspecified, ↓reduceIte]

theorem expFocus_registry (state : State) (window : CMDWID) (expId : Option EXPID) :
    (state.expFocus window expId).toRegistry = state.toRegistry := by
  have registry_of_branch (id : EXPID) (middle : State)
      (same : middle.toRegistry = state.toRegistry) :
      (if id ≠ 0 then
        if (middle.findSpecifiedExperiment window expId).1.isNone then
          (middle.findSpecifiedExperiment window expId).2
        else (middle.findSpecifiedExperiment window expId).2.setFocus window id
      else middle.setFocus window id).toRegistry = state.toRegistry := by
    have checked := (findSpecifiedExperiment_registry middle window expId).trans same
    split
    · split
      · exact checked
      · exact checked
    · exact same
  cases expId with
  | none => exact registry_of_branch _ _ (experimentFocus_registry state window)
  | some id => exact registry_of_branch id state rfl

variable {registry : Registry} {exp : ExperimentObject}

theorem findExperimentObject_mem {id : EXPID} (found : registry.findExperimentObject id = some exp) :
    exp ∈ registry.list ∧ exp.expID = id ∧ 0 < id := by
  unfold Registry.findExperimentObject at found
  split at found
  next positive =>
    refine ⟨List.mem_of_find?_eq_some found, ?_, positive⟩
    have matched := List.find?_some found
    exact (of_decide_eq_true matched).symm
  next => exact absurd found (by simp)

theorem findExperimentObject_of_mem (distinct : registry.IdsDistinct)
    (inside : exp ∈ registry.list) (positive : 0 < exp.expID) :
    registry.findExperimentObject exp.expID = some exp := by
  unfold Registry.findExperimentObject
  rw [if_pos positive]
  cases found : registry.list.find? fun other => exp.expID = other.expID with
  | none =>
    have missing := List.find?_eq_none.mp found exp inside
    exact absurd missing (by simp)
  | some other =>
    have matched := List.find?_some found
    have same : exp.expID = other.expID := of_decide_eq_true matched
    have equal := List.inj_on_of_nodup_map distinct inside (List.mem_of_find?_eq_some found) same
    rw [equal]

variable {state : State}

theorem findSpecifiedExperiment_mem {window : CMDWID} {expId : Option EXPID}
    (found : (state.findSpecifiedExperiment window expId).1 = some exp) :
    exp ∈ state.list ∧ 0 < exp.expID := by
  unfold State.findSpecifiedExperiment at found
  have inside : ∀ {registry : Registry} {id : EXPID},
      registry.findExperimentObject id = some exp → registry = state.toRegistry →
        exp ∈ state.list ∧ 0 < exp.expID := by
    rintro registry id found rfl
    obtain ⟨member, rfl, positive⟩ := findExperimentObject_mem found
    exact ⟨member, positive⟩
  by_cases unspecified : expId.getD 0 = 0
  · simp only [unspecified, ↓reduceIte] at found
    exact inside found (experimentFocus_registry state window)
  · simp only [unspecified, ↓reduceIte] at found
    exact inside found rfl

theorem restoredOver_mem {window : CMDWID} {expId : Option EXPID}
    (found : state.restoredOver window expId = some exp) : exp ∈ state.list ∧ 0 < exp.expID :=
  findSpecifiedExperiment_mem (Option.filter_eq_some_iff.mp found).1

def ExperimentObject.entry (exp : ExperimentObject) : Nat × EXPID := (exp.object, exp.expID)

structure Invariant (registry : Registry) : Prop where
  tracked : registry.opened = registry.list.map ExperimentObject.entry
  positive : ∀ exp ∈ registry.list, 0 < exp.expID
  ordered : registry.list.Pairwise fun newer older => older.expID < newer.expID
  bounded : ∀ exp ∈ registry.list, exp.expID ≤ registry.sequenceNumber
  numbered : ∀ exp ∈ registry.list, exp.object < registry.constructed

theorem Invariant.idsDistinct (invariant : Invariant registry) : registry.IdsDistinct := by
  rw [Registry.IdsDistinct, List.Nodup, List.pairwise_map]
  exact invariant.ordered.imp fun descends => descends.ne'

theorem Invariant.openedFound (invariant : Invariant registry) : registry.OpenedFound := by
  intro object id isOpen
  rw [invariant.tracked] at isOpen
  obtain ⟨exp, inside, same⟩ := List.mem_map.mp isOpen
  obtain ⟨rfl, rfl⟩ := Prod.mk.inj same
  exact ⟨exp, findExperimentObject_of_mem invariant.idsDistinct inside (invariant.positive exp inside), rfl⟩

theorem initial_invariant (windows : List CMDWID) (lastReadWindow : CMDWID) :
    Invariant (initial windows lastReadWindow).toRegistry where
  tracked := rfl
  positive := by simp [initial]
  ordered := List.Pairwise.nil
  bounded := by simp [initial]
  numbered := by simp [initial]

theorem Invariant.advance (invariant : Invariant registry)
    {sequenceNumber : EXPID} (later : registry.sequenceNumber ≤ sequenceNumber) :
    Invariant { registry with
      sequenceNumber := sequenceNumber
      constructed := registry.constructed + 1 } where
  tracked := invariant.tracked
  positive := invariant.positive
  ordered := invariant.ordered
  bounded := fun exp inside => (invariant.bounded exp inside).trans later
  numbered := fun exp inside => (invariant.numbered exp inside).trans (Nat.lt_succ_self _)

theorem Invariant.push (invariant : Invariant registry)
    (fresh : exp.object = registry.constructed) (next : exp.expID = registry.sequenceNumber + 1) :
    Invariant {
        list := exp :: registry.list
        sequenceNumber := registry.sequenceNumber + 1
        constructed := registry.constructed + 1
        opened := exp.entry :: registry.opened } where
  tracked := by rw [invariant.tracked, List.map_cons]
  positive := by
    refine List.forall_mem_cons.mpr ⟨?_, invariant.positive⟩
    rw [next]
    exact Nat.succ_pos _
  ordered := by
    refine List.pairwise_cons.mpr ⟨fun older inside => ?_, invariant.ordered⟩
    rw [next]
    exact Nat.lt_succ_of_le (invariant.bounded older inside)
  bounded := by
    refine List.forall_mem_cons.mpr ⟨next.le, fun older inside => ?_⟩
    exact (invariant.bounded older inside).trans (Nat.le_succ _)
  numbered := by
    refine List.forall_mem_cons.mpr ⟨fresh.trans_lt (Nat.lt_succ_self _), fun older inside => ?_⟩
    exact (invariant.numbered older inside).trans (Nat.lt_succ_self _)

theorem delete_invariant (state : State) (invariant : Invariant state.toRegistry) (object : Nat) :
    Invariant (state.delete object).toRegistry where
  tracked := by
    simp only [State.delete, invariant.tracked, List.filter_map]
    rfl
  positive := fun exp inside => invariant.positive exp (List.mem_of_mem_filter inside)
  ordered := invariant.ordered.filter _
  bounded := fun exp inside => invariant.bounded exp (List.mem_of_mem_filter inside)
  numbered := fun exp inside => invariant.numbered exp (List.mem_of_mem_filter inside)

def Registry.advanced (registry : Registry) (sequenceNumber : EXPID) : Registry :=
  { registry with
    sequenceNumber := sequenceNumber
    constructed := registry.constructed + 1 }

theorem setIsInstrumentorOffline_head (state : State) (exp : ExperimentObject)
    {others : List ExperimentObject} (flag : Bool) (built : state.list = exp :: others)
    (older : ∀ other ∈ others, other.object ≠ exp.object) :
    (state.setIsInstrumentorOffline exp.object flag).list =
      { exp with isInstrumentorOffline := flag } :: others := by
  have unchanged : others.map (fun other =>
      if other.object = exp.object then { other with isInstrumentorOffline := flag } else other) =
      others := by
    refine (List.map_congr_left fun other inside => ?_).trans (List.map_id others)
    exact if_neg (older other inside)
  simp only [State.setIsInstrumentorOffline, built, List.map_cons, ↓reduceIte, unchanged]

theorem delete_head (state : State) (invariant : Invariant registry)
    (exp : ExperimentObject) (fresh : exp.object = registry.constructed)
    (built : state.list = exp :: registry.list) (kept : state.opened = registry.opened) :
    (state.delete exp.object).list = registry.list ∧ (state.delete exp.object).opened = registry.opened := by
  have older : ∀ other ∈ registry.list, other.object ≠ exp.object := by
    intro other inside
    have := invariant.numbered other inside
    omega
  constructor
  · simp only [State.delete, built, ne_eq, not_true_eq_false, decide_false, Bool.false_eq_true,
      not_false_eq_true, List.filter_cons_of_neg]
    refine List.filter_eq_self.mpr fun other inside => ?_
    exact decide_eq_true (older other inside)
  · simp only [State.delete, kept]
    refine List.filter_eq_self.mpr fun entry inside => decide_eq_true ?_
    rw [invariant.tracked] at inside
    obtain ⟨other, member, rfl⟩ := List.mem_map.mp inside
    exact older other member

def State.newObject (state : State) (created : Bool) : ExperimentObject where
  object := state.constructed
  expID := if created then state.sequenceNumber + 1 else 0
  isInstrumentorOffline := false

def State.pushed (state : State) (exp : ExperimentObject) : State :=
  { state with
    list := exp :: state.list
    sequenceNumber := state.sequenceNumber + 1
    constructed := state.constructed + 1 }

theorem construct_new (state : State) {dataBase : DataBase} (opens : dataBase.opens) :
    state.construct dataBase 0 =
      some (state.newObject dataBase.created, true, state.pushed (state.newObject dataBase.created)) := by
  simp only [State.construct, opens, ne_eq, not_true_eq_false, false_and, ↓reduceIte]
  rfl

theorem expCreate_discarded (invariant : Invariant state.toRegistry)
    (window : CMDWID) (mode : StartMode) (instrumentors : List String) (created : Bool)
    {opens processed : Bool} (discarded : ¬ opens ∨ ¬ processed) :
    ∃ next, state.expCreate window mode instrumentors created opens processed = some next ∧
      next.toRegistry = state.toRegistry.advanced (state.sequenceNumber + 1) := by
  cases opens with
  | false => exact ⟨_, rfl, rfl⟩
  | true =>
    obtain rfl : processed = false := by simpa using discarded
    let exp := state.newObject created
    let flagged := (state.pushed exp).setIsInstrumentorOffline exp.object (isOfflineCmd mode instrumentors)
    have result : state.expCreate window mode instrumentors created true false =
        some (flagged.delete exp.object) := by
      rw [State.expCreate, construct_new state rfl]
      rfl
    refine ⟨_, result, ?_⟩
    have head := setIsInstrumentorOffline_head (state.pushed exp) exp
      (isOfflineCmd mode instrumentors) rfl fun other inside =>
        (invariant.numbered other inside).ne
    obtain ⟨list, opened⟩ := delete_head flagged invariant
      { exp with isInstrumentorOffline := isOfflineCmd mode instrumentors } rfl head rfl
    exact congrArg₂ (fun list opened => (⟨list, _, _, opened⟩ : Registry)) list opened

theorem expCreate_kept (invariant : Invariant state.toRegistry)
    (window : CMDWID) (mode : StartMode) (instrumentors : List String) (created : Bool) :
    ∃ next, state.expCreate window mode instrumentors created true true = some next ∧
      ∃ exp : ExperimentObject, exp.object = state.constructed ∧
        exp.expID = (if created then state.sequenceNumber + 1 else 0) ∧ next.toRegistry =
          { list := exp :: state.list
            sequenceNumber := state.sequenceNumber + 1
            constructed := state.constructed + 1
            opened := exp.entry :: state.opened } := by
  let exp := state.newObject created
  let flagged := (state.pushed exp).setIsInstrumentorOffline exp.object (isOfflineCmd mode instrumentors)
  have result : state.expCreate window mode instrumentors created true true =
      some { flagged.setFocus window exp.expID with opened := exp.entry :: flagged.opened } := by
    rw [State.expCreate, construct_new state rfl]
    rfl
  have head := setIsInstrumentorOffline_head (state.pushed exp) exp
    (isOfflineCmd mode instrumentors) rfl fun other inside =>
      (invariant.numbered other inside).ne
  refine ⟨_, result, { exp with isInstrumentorOffline := isOfflineCmd mode instrumentors },
    rfl, rfl, ?_⟩
  exact congrArg (fun list => (⟨list, _, _, exp.entry :: state.opened⟩ : Registry)) head

section

variable (state : State) (window : CMDWID) (expId : Option EXPID)

theorem expRestore_looked (opens : Bool) : ∃ looked : State, looked.toRegistry = state.toRegistry ∧
      state.expRestore window expId true opens = (looked.construct (.named opens)
          (((state.restoredOver window expId).map ExperimentObject.expID).getD 0)).bind
          fun (exp, _, made) => if exp.expID = 0 then some made else
              let kept := match state.restoredOver window expId with
                | some replaced => made.opened.filter fun entry => entry.1 ≠ replaced.object
                | none => made.opened
              some { made.setFocus window exp.expID with opened := exp.entry :: kept } :=
  ⟨_, findSpecifiedExperiment_registry state window expId, rfl⟩

theorem expRestore_new (alone : state.restoredOver window expId = none) :
    ∃ next, state.expRestore window expId true true = some next ∧
      ∃ exp : ExperimentObject, exp.object = state.constructed ∧ exp.expID = state.sequenceNumber + 1 ∧
        next.toRegistry = {
            list := exp :: state.list
            sequenceNumber := state.sequenceNumber + 1
            constructed := state.constructed + 1
            opened := exp.entry :: state.opened } := by
  obtain ⟨looked, registry, result⟩ := expRestore_looked state window expId true
  rw [alone, Option.map_none, Option.getD_none, construct_new looked rfl] at result
  refine ⟨_, result, looked.newObject true, ?_, ?_, ?_⟩
  · exact congrArg Registry.constructed registry
  · exact congrArg (fun registry : Registry => registry.sequenceNumber + 1) registry
  · rw [← registry]
    rfl

theorem construct_over {looked : State} {preferredID : EXPID} (opens : Bool)
    (positive : 0 < preferredID) (reached : looked.sequenceNumber ≤ preferredID) :
    looked.construct (.named opens) preferredID = let made := { looked with
        sequenceNumber := preferredID
        constructed := looked.constructed + 1 }
      let exp : ExperimentObject := ⟨looked.constructed, preferredID, false⟩
      if opens then some (exp, true, { made with list := exp :: looked.list.dropLast })
      else some ({ exp with expID := 0 }, false, made) := by
  have passes : ¬ (preferredID ≠ 0 ∧ ¬ looked.sequenceNumber ≤ preferredID) :=
    fun fails => fails.2 reached
  rw [State.construct, if_neg passes]
  simp only [DataBase.created, DataBase.opens, positive.ne', ne_eq, not_false_eq_true, ↓reduceIte]

theorem expRestore_unopened
    (reached : ∀ exp, state.restoredOver window expId = some exp → state.sequenceNumber ≤ exp.expID) :
    ∃ next, state.expRestore window expId true false = some next ∧
      ∃ sequenceNumber, state.sequenceNumber ≤ sequenceNumber ∧
        next.toRegistry = state.toRegistry.advanced sequenceNumber := by
  obtain ⟨looked, registry, result⟩ := expRestore_looked state window expId false
  cases found : state.restoredOver window expId with
  | none =>
    rw [found] at result
    refine ⟨_, result, state.sequenceNumber + 1, Nat.le_succ _, ?_⟩
    rw [← registry]
    rfl
  | some replaced =>
    have above : looked.sequenceNumber ≤ replaced.expID := by
      rw [registry]
      exact reached replaced found
    rw [found, Option.map_some, Option.getD_some,
      construct_over false (restoredOver_mem found).2 above] at result
    refine ⟨_, result, replaced.expID, reached replaced found, ?_⟩
    rw [← registry]
    rfl

variable {replaced : ExperimentObject}

theorem expRestore_over (found : state.restoredOver window expId = some replaced)
    (reached : state.sequenceNumber ≤ replaced.expID) :
    ∃ next, state.expRestore window expId true true = some next ∧
      ∃ exp : ExperimentObject, exp.object = state.constructed ∧ exp.expID = replaced.expID ∧
        next.toRegistry = {
            list := exp :: state.list.dropLast
            sequenceNumber := replaced.expID
            constructed := state.constructed + 1
            opened := exp.entry :: state.opened.filter fun entry => entry.1 ≠ replaced.object } := by
  obtain ⟨looked, registry, result⟩ := expRestore_looked state window expId true
  have positive := (restoredOver_mem found).2
  rw [← registry] at reached
  rw [found, Option.map_some, Option.getD_some, construct_over true positive reached] at result
  simp only [↓reduceIte, Option.bind_some, positive.ne'] at result
  refine ⟨_, result, ⟨looked.constructed, replaced.expID, false⟩, ?_, rfl, ?_⟩
  · exact congrArg Registry.constructed registry
  · rw [← registry]
    rfl

theorem expRestore_asserts (opens : Bool) (found : state.restoredOver window expId = some replaced)
    (passed : ¬ state.sequenceNumber ≤ replaced.expID) : state.expRestore window expId true opens = none := by
  obtain ⟨looked, registry, result⟩ := expRestore_looked state window expId opens
  rw [← registry] at passed
  have fails : replaced.expID ≠ 0 ∧ ¬ looked.sequenceNumber ≤ replaced.expID :=
    ⟨(restoredOver_mem found).2.ne', passed⟩
  rw [result, found, Option.map_some, Option.getD_some, State.construct, if_pos fails]
  rfl

end

theorem destroyExperiment_invariant (invariant : Invariant state.toRegistry)
    (kill : Bool) (killFails : Nat → Bool) (exp : ExperimentObject) :
    Invariant (state.destroyExperiment kill killFails exp).2.toRegistry := by
  unfold State.destroyExperiment
  split
  · exact invariant
  · exact delete_invariant (state.experimentPurgeFocus exp.expID) invariant exp.object

theorem destroyAll_invariant (kill : Bool) (killFails : Nat → Bool)
    (exps : List ExperimentObject) (invariant : Invariant state.toRegistry) :
    Invariant (State.destroyAll kill killFails exps state).toRegistry := by
  induction exps generalizing state with
  | nil => exact invariant
  | cons exp rest ih =>
    have destroyed := destroyExperiment_invariant invariant kill killFails exp
    unfold State.destroyAll
    split
    next next result =>
      rw [result] at destroyed
      exact ih destroyed
    next next result =>
      rw [result] at destroyed
      exact destroyed

theorem expClose_invariant (invariant : Invariant state.toRegistry)
    (window : CMDWID) (expId : Option EXPID) (all kill : Bool) (killFails : Nat → Bool) :
    Invariant (state.expClose window expId all kill killFails).toRegistry := by
  have focused := findSpecifiedExperiment_registry state window expId
  rw [← focused] at invariant
  unfold State.expClose
  split
  · rw [focused] at invariant
    exact destroyAll_invariant kill killFails state.list invariant
  · split
    next exp next result =>
      rw [result] at invariant
      exact destroyExperiment_invariant invariant kill killFails exp
    next next result =>
      rw [result] at invariant
      exact invariant

theorem Invariant.replaceOnly (invariant : Invariant registry)
    {replaced exp : ExperimentObject} (only : registry.list = [replaced])
    (fresh : exp.object = registry.constructed) (takes : exp.expID = replaced.expID) : Invariant
      { list := exp :: registry.list.dropLast
        sequenceNumber := replaced.expID
        constructed := registry.constructed + 1
        opened := exp.entry :: registry.opened.filter fun entry => entry.1 ≠ replaced.object } := by
  have positive := invariant.positive replaced (by simp [only])
  have tracked := invariant.tracked
  rw [only] at tracked
  rw [only, tracked]
  exact
    { tracked := by simp [ExperimentObject.entry]
      positive := by simpa [takes] using positive
      ordered := by simp
      bounded := by simp [takes]
      numbered := by simp [fresh] }

variable {command : Command}

theorem step_kept (invariant : Invariant state.toRegistry) (inTurn : command.InTurn state) :
    ∃ next, step state command = some next ∧ Invariant next.toRegistry ∧ command.RestoresOnly state next := by
  cases command with
  | expCreate window mode instrumentors created opens processed =>
    by_cases discarded : ¬ opens ∨ ¬ processed
    · obtain ⟨next, stepped, registry⟩ :=
        expCreate_discarded invariant window mode instrumentors created discarded
      refine ⟨next, stepped, ?_, trivial⟩
      rw [registry]
      exact invariant.advance (Nat.le_succ _)
    · simp only [not_or, not_not] at discarded
      obtain ⟨rfl, rfl⟩ := discarded
      obtain rfl : created = true := by simpa [Command.InTurn] using inTurn
      obtain ⟨next, stepped, exp, fresh, id, registry⟩ :=
        expCreate_kept invariant window mode instrumentors true
      refine ⟨next, stepped, ?_, trivial⟩
      rw [registry]
      exact invariant.push fresh id
  | expRestore window expId fileName opens =>
    cases fileName with
    | false => exact ⟨state, rfl, invariant, rfl⟩
    | true =>
      cases opens with
      | false =>
        obtain ⟨next, stepped, sequenceNumber, later, registry⟩ :=
          expRestore_unopened state window expId fun exp found => (inTurn exp rfl found).1.ge
        refine ⟨next, stepped, ?_, ?_⟩
        · rw [registry]
          exact invariant.advance later
        · show next.toRegistry.list = state.list
          rw [registry, Registry.advanced]
      | true =>
        cases found : state.restoredOver window expId with
        | none =>
          obtain ⟨next, stepped, exp, fresh, id, registry⟩ :=
            expRestore_new state window expId found
          refine ⟨next, stepped, ?_, exp, fresh, ?_⟩
          · rw [registry]
            exact invariant.push fresh id
          · rw [registry]
            simp [found]
        | some replaced =>
          obtain ⟨latest, only⟩ := inTurn replaced rfl found
          have only : state.list = [replaced] := only rfl
          obtain ⟨next, stepped, exp, fresh, takes, registry⟩ :=
            expRestore_over state window expId found latest.ge
          refine ⟨next, stepped, ?_, exp, fresh, ?_⟩
          · rw [registry]
            exact invariant.replaceOnly only fresh takes
          · rw [registry]
            simp [found, only]
  | expFocus window expId =>
    refine ⟨_, rfl, ?_, trivial⟩
    rw [expFocus_registry]
    exact invariant
  | expClose window expId all kill killFails =>
    exact ⟨_, rfl, expClose_invariant invariant window expId all kill killFails, trivial⟩
  | openWindow window => exact ⟨_, rfl, invariant, trivial⟩
  | readFrom window => exact ⟨_, rfl, invariant, trivial⟩

theorem head_of_latest (invariant : Invariant registry)
    (inside : exp ∈ registry.list) (latest : registry.sequenceNumber ≤ exp.expID) :
    ∃ others, registry.list = exp :: others := by
  obtain ⟨-, -, ordered, bounded, -⟩ := invariant
  cases equation : registry.list with
  | nil => simp [equation] at inside
  | cons newest others =>
    rw [equation] at inside ordered bounded
    obtain rfl | older := List.mem_cons.mp inside
    · exact ⟨others, rfl⟩
    · have below := (List.pairwise_cons.mp ordered).1 exp older
      have most := bounded newest List.mem_cons_self
      exact absurd (below.trans_le most) (Nat.not_lt.mpr latest)

theorem step_broken (invariant : Invariant state.toRegistry)
    (outOfTurn : ¬ command.InTurn state) : ¬ command.Correct state := by
  rintro ⟨next, stepped, distinct, found, -⟩
  cases command with
  | expCreate window mode instrumentors created opens processed =>
    simp only [Command.InTurn, not_or, not_not] at outOfTurn
    obtain ⟨uncreated, rfl, rfl⟩ := outOfTurn
    obtain rfl : created = false := Bool.not_eq_true _ ▸ uncreated
    obtain ⟨same, result, exp, -, id, registry⟩ :=
      expCreate_kept invariant window mode instrumentors false
    obtain rfl : next = same := Option.some.inj (stepped.symm.trans result)
    obtain ⟨other, looked, -⟩ := found exp.object exp.expID (by
      rw [registry]
      exact List.mem_cons_self)
    have positive := (findExperimentObject_mem looked).2.2
    rw [id] at positive
    exact absurd positive (by simp)
  | expRestore window expId fileName opens =>
    simp only [Command.InTurn, not_forall] at outOfTurn
    obtain ⟨replaced, rfl, isOriginal, unfit⟩ := outOfTurn
    have inside := (restoredOver_mem isOriginal).1
    by_cases reached : state.sequenceNumber ≤ replaced.expID
    · have latest : replaced.expID = state.sequenceNumber :=
        (invariant.bounded replaced inside).antisymm reached
      simp only [latest, true_and, not_forall] at unfit
      obtain ⟨rfl, several⟩ := unfit
      obtain ⟨others, equation⟩ := head_of_latest invariant inside reached
      obtain ⟨same, result, exp, -, takes, registry⟩ :=
        expRestore_over state window expId isOriginal reached
      obtain rfl : next = same := Option.some.inj (stepped.symm.trans result)
      have nonempty : others ≠ [] := by
        rintro rfl
        exact several equation
      -- the replaced experiment stays in the list, next to the one that took its id
      rw [Registry.IdsDistinct, registry, equation, List.dropLast_cons_of_ne_nil nonempty,
        List.map_cons, List.map_cons, takes] at distinct
      exact (List.nodup_cons.mp distinct).1 List.mem_cons_self
    · have asserts := expRestore_asserts state window expId opens isOriginal reached
      exact absurd (stepped.symm.trans asserts) (by simp)
  | expFocus window expId => exact outOfTurn trivial
  | expClose window expId all kill killFails => exact outOfTurn trivial
  | openWindow window => exact outOfTurn trivial
  | readFrom window => exact outOfTurn trivial

theorem correct_iff_inTurn (invariant : Invariant state.toRegistry) :
    command.Correct state ↔ command.InTurn state := by
  constructor
  · intro correct
    by_contra outOfTurn
    exact step_broken invariant outOfTurn correct
  · intro inTurn
    obtain ⟨next, stepped, kept, restores⟩ := step_kept invariant inTurn
    exact ⟨next, stepped, kept.idsDistinct, kept.openedFound, restores⟩

/-- Every command of a run keeps the list right exactly when every command of it comes in
turn. -/
theorem runs_correct_iff (windows : List CMDWID) (lastReadWindow : CMDWID)
    (commands : List Command) :
    Runs.Along (fun state command => command.Correct state) step (initial windows lastReadWindow) commands ↔
      Runs.Along (fun state command => command.InTurn state) step
        (initial windows lastReadWindow) commands := by
  refine Runs.along_iff_along (fun state => Invariant state.toRegistry)
    (fun state command invariant => correct_iff_inTurn invariant) ?_
    (initial_invariant windows lastReadWindow)
  intro state command next invariant inTurn stepped
  obtain ⟨same, result, kept, -⟩ := step_kept invariant inTurn
  obtain rfl : next = same := Option.some.inj (stepped.symm.trans result)
  exact kept

theorem restore_pops_oldest :
    let create := Command.expCreate 1 .offline [] true true true
    let restore := Command.expRestore 1 none true true
    ¬ Runs.Along (fun state command => command.Correct state) step (initial [1] 1) [create, create, restore] ∧
      ((Runs.run step (initial [1] 1) [create, create, restore]).map fun state =>
        (state.list.map fun exp => (exp.object, exp.expID), state.opened)) =
        some ([(2, 2), (1, 2)], [(2, 2), (0, 1)]) := by
  refine ⟨?_, by decide⟩
  rintro ⟨-, along⟩
  obtain ⟨-, along⟩ := along _ rfl
  obtain ⟨⟨next, stepped, distinct, -⟩, -⟩ := along _ rfl
  obtain rfl := Option.some.inj stepped
  exact absurd distinct (by decide)

end OpenSpeedShop.ExperimentList
