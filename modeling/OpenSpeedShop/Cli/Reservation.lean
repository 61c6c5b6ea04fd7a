import OpenSpeedShop.Library.Lock
import OpenSpeedShop.Library.Runs
import Mathlib.Data.List.Basic

/-!
The reservation of an experiment by concurrent commands. A step is what a command does until another one
can come in: it takes or releases a lock, or works on the flag and the list.
-/

open Function (update update_self update_of_ne)

namespace OpenSpeedShop

namespace Reservation

/-- Where the thread of a command is.

* In `Q_Lock`: `entering`, `locked`, `safeToDoNext` (in `SafeToDoNextCmd`), `suspended` (in the
  condition wait), `signalled`, `awake` (the wait has returned), `reserving`, `leaving`. The flag
  of the last two says that the command was on the waiting list.
* In `TS_Lock`: `trying`, `testing`, `failed`, or `leaving` with the reservation.
* In `Q_UnLock`: `unlocking`, `clearing`, `cleared`.
* In `dispatching` the thread is at the dispatch queue. -/
inductive Phase
  | idle
  | dispatching
  | entering (startNextCmd : Bool)
  | locked (startNextCmd : Bool)
  | safeToDoNext
  | suspended
  | signalled
  | awake
  | reserving (waited : Bool)
  | leaving (waited : Bool)
  | holding
  | unlocking
  | clearing
  | cleared
  | trying
  | testing
  | failed
  deriving DecidableEq

/-- From `exp_reserved = true` to `exp_reserved = false`. -/
def Phase.holds : Phase → Bool
  | leaving _ | holding | unlocking | clearing => true
  | _ => false

/-- The last two fields are the history of the waiting list: the commands put on it, and the
ones that were granted the reservation after it. -/
structure State where
  phase : Nat → Phase
  experimentLock : Lock Nat
  cmdExtLock : Lock Nat
  expReserved : Bool
  waitingCmds : List Nat
  arrived : List Nat
  granted : List Nat

def initial : State := ⟨fun _ => .idle, Lock.free, Lock.free, false, [], [], []⟩

def State.enter (state : State) (cmd : Nat) (phase : Phase) : State :=
  { state with phase := Function.update state.phase cmd phase }

def State.lock (state : State) (cmd : Nat) (phase : Phase) : Option State :=
  (state.experimentLock.acquire cmd).map fun lock =>
    { state.enter cmd phase with experimentLock := lock }

def State.unlock (state : State) (cmd : Nat) (phase : Phase) : State :=
  { state.enter cmd phase with experimentLock := state.experimentLock.release cmd }

def State.lockExt (state : State) (cmd : Nat) (phase : Phase) : Option State :=
  (state.cmdExtLock.acquire cmd).map fun lock =>
    { state.enter cmd phase with cmdExtLock := lock }

def State.unlockExt (state : State) (cmd : Nat) (phase : Phase) : State :=
  { state.enter cmd phase with cmdExtLock := state.cmdExtLock.release cmd }

def State.waitOnDependency (state : State) (cmd : Nat) : State :=
  { state.unlock cmd .suspended with
    waitingCmds := state.waitingCmds ++ [cmd]
    arrived := state.arrived ++ [cmd] }

def State.allClear (state : State) (cmd : Nat) : State :=
  if state.phase cmd = .suspended then state.enter cmd .signalled else state

def State.reserve (state : State) (cmd : Nat) (waited : Bool) : State :=
  { state.enter cmd (.leaving waited) with
    expReserved := true
    granted := if waited then state.granted ++ [cmd] else state.granted }

def State.clear (state : State) (cmd : Nat) : State :=
  match state.waitingCmds with
  | first :: rest =>
    { (({ state with waitingCmds := rest }).allClear first).enter cmd .cleared with
      expReserved := false }
  | [] => { state.enter cmd .cleared with expReserved := false }

inductive Action
  | qLock (startNextCmd : Bool)
  | tsLock
  | qUnLock
  | dispatch
  | proceed
  deriving DecidableEq

def step (state : State) : Nat × Action → Option State
  | (cmd, action) =>
    match state.phase cmd, action with
    | .idle, .qLock startNextCmd => some (state.enter cmd (.entering startNextCmd))
    | .idle, .tsLock => some (state.enter cmd .trying)
    | .idle, .dispatch => state.lockExt cmd .dispatching
    | .dispatching, .proceed => some (state.unlockExt cmd .idle)
    | .entering startNextCmd, .proceed => state.lock cmd (.locked startNextCmd)
    | .locked true, .proceed => state.lockExt cmd .safeToDoNext
    | .safeToDoNext, .proceed => some (state.unlockExt cmd (.locked false))
    | .locked false, .proceed =>
      if state.expReserved then some (state.waitOnDependency cmd)
      else some (state.enter cmd (.reserving false))
    | .signalled, .proceed => state.lock cmd .awake
    | .awake, .proceed => some (state.unlock cmd (.reserving true))
    | .reserving waited, .proceed => some (state.reserve cmd waited)
    | .leaving _, .proceed => some (state.unlock cmd .holding)
    | .holding, .qUnLock => some (state.enter cmd .unlocking)
    | .unlocking, .proceed => state.lock cmd .clearing
    | .clearing, .proceed => some (state.clear cmd)
    | .cleared, .proceed => some (state.unlock cmd .idle)
    | .trying, .proceed => state.lock cmd .testing
    | .testing, .proceed =>
      if state.expReserved then some (state.enter cmd .failed)
      else some (state.reserve cmd false)
    | .failed, .proceed => some (state.unlock cmd .idle)
    | _, _ => none

def State.Exclusive (state : State) : Prop :=
  ∀ first second, (state.phase first).holds → (state.phase second).holds → first = second

/-- The commands that were put on the waiting list are granted the reservation in the order
of the list. -/
def State.GrantedInOrder (state : State) : Prop :=
  state.granted <+: state.arrived

def State.NoneLost (state : State) : Prop :=
  ∀ cmd, state.arrived.count cmd = state.granted.count cmd + state.waitingCmds.count cmd

def State.LocksRespected (state : State) : Prop :=
  state.experimentLock.misused = [] ∧ state.cmdExtLock.misused = []

structure State.Correct (state : State) : Prop where
  exclusive : state.Exclusive
  grantedInOrder : state.GrantedInOrder
  noneLost : state.NoneLost
  locksRespected : state.LocksRespected

def NobodyWaits (state : State) (input : Nat × Action) : Prop :=
  state.phase input.1 = .clearing → input.2 = .proceed → state.waitingCmds = []

end Reservation

/-! Who holds the reservation, and what a command does that has waited for it. -/

namespace Reservation

def Phase.inSection : Phase → Bool
  | locked _ | safeToDoNext | awake | reserving false | leaving false | clearing | cleared => true
  | testing | failed => true
  | _ => false

def Phase.atDispatch : Phase → Bool
  | dispatching | safeToDoNext => true
  | _ => false

def Phase.woken : Phase → Bool
  | signalled | awake | reserving true | leaving true => true
  | _ => false

structure Invariant (state : State) : Prop where
  inSection : Lock.Guards Phase.inSection state.phase state.experimentLock.owner
  dispatch : Lock.Guards Phase.atDispatch state.phase state.cmdExtLock.owner
  holder : ∃ holder, Lock.Guards Phase.holds state.phase holder ∧ (state.expReserved = false → holder = none)
  unwoken : ∀ cmd, (state.phase cmd).woken = false
  reserving : ∀ cmd, state.phase cmd = .reserving false → state.expReserved = false
  queue : state.arrived = state.waitingCmds
  granted : state.granted = []
  respected : state.LocksRespected

theorem initial_invariant : Invariant initial where
  inSection := fun _ => by simp [initial, Lock.free, Phase.inSection]
  dispatch := fun _ => by simp [initial, Lock.free, Phase.atDispatch]
  holder := ⟨none, fun _ => by simp [initial, Phase.holds], fun _ => rfl⟩
  unwoken := fun _ => rfl
  reserving := fun _ _ => rfl
  queue := rfl
  granted := rfl
  respected := ⟨rfl, rfl⟩

theorem Invariant.correct {state : State} (invariant : Invariant state) : state.Correct where
  exclusive := by
    obtain ⟨holder, guards, -⟩ := invariant.holder
    exact fun first second => guards.unique
  grantedInOrder := by
    rw [State.GrantedInOrder, invariant.granted]
    exact List.nil_prefix
  noneLost := by
    intro cmd
    rw [invariant.granted, invariant.queue, List.count_nil, Nat.zero_add]
  locksRespected := invariant.respected

section

variable {state : State} {cmd : Nat} {next : Phase}

theorem unwoken_update (unwoken : ∀ other, (state.phase other).woken = false)
    (asleep : next.woken = false) : ∀ other, (update state.phase cmd next other).woken = false := by
  intro other
  by_cases isCmd : other = cmd
  · rw [isCmd, update_self, asleep]
  · rw [update_of_ne isCmd, unwoken other]

theorem reserving_update {flag : Bool}
    (reserving : ∀ other, state.phase other = .reserving false → flag = false)
    (own : next = .reserving false → flag = false) :
    ∀ other, update state.phase cmd next other = .reserving false → flag = false := by
  intro other
  by_cases isCmd : other = cmd
  · rw [isCmd, update_self]
    exact own
  · rw [update_of_ne isCmd]
    exact reserving other

section

variable (invariant : Invariant state)
include invariant

theorem Invariant.enter (section_ : next.inSection = (state.phase cmd).inSection)
    (dispatch : next.atDispatch = (state.phase cmd).atDispatch)
    (holds : next.holds = (state.phase cmd).holds) (asleep : next.woken = false)
    (own : next = .reserving false → state.expReserved = false) : Invariant (state.enter cmd next) where
  inSection := invariant.inSection.stay section_
  dispatch := invariant.dispatch.stay dispatch
  holder := by
    obtain ⟨holder, guards, free⟩ := invariant.holder
    exact ⟨holder, guards.stay holds, free⟩
  unwoken := unwoken_update invariant.unwoken asleep
  reserving := reserving_update invariant.reserving own
  queue := invariant.queue
  granted := invariant.granted
  respected := invariant.respected

theorem Invariant.lock {after : State}
    (locked : state.lock cmd next = some after) (into : next.inSection = true)
    (dispatch : next.atDispatch = (state.phase cmd).atDispatch)
    (holds : next.holds = (state.phase cmd).holds) (asleep : next.woken = false)
    (own : next ≠ .reserving false) : Invariant after := by
  obtain ⟨lock, acquired, rfl⟩ := Option.map_eq_some_iff.mp locked
  obtain ⟨free, rfl⟩ := Lock.acquire_eq_some.mp acquired
  have inSection := invariant.inSection
  rw [free] at inSection
  obtain ⟨holder, guards, unreserved⟩ := invariant.holder
  exact
    { inSection := inSection.enter into
      dispatch := invariant.dispatch.stay dispatch
      holder := ⟨holder, guards.stay holds, unreserved⟩
      unwoken := unwoken_update invariant.unwoken asleep
      reserving := reserving_update invariant.reserving fun same => absurd same own
      queue := invariant.queue
      granted := invariant.granted
      respected := invariant.respected }

theorem Invariant.unlock (inside : (state.phase cmd).inSection = true) (out : next.inSection = false)
    (dispatch : next.atDispatch = (state.phase cmd).atDispatch)
    (holds : next.holds = (state.phase cmd).holds) (asleep : next.woken = false) :
    Invariant (state.unlock cmd next) := by
  have owned := (invariant.inSection cmd).mp inside
  have inSection := invariant.inSection
  rw [owned] at inSection
  obtain ⟨holder, guards, unreserved⟩ := invariant.holder
  exact
    { inSection := inSection.leave out
      dispatch := invariant.dispatch.stay dispatch
      holder := ⟨holder, guards.stay holds, unreserved⟩
      unwoken := unwoken_update invariant.unwoken asleep
      reserving := by
        refine reserving_update invariant.reserving fun same => ?_
        rw [same] at out
        cases out
      queue := invariant.queue
      granted := invariant.granted
      respected := ⟨(Lock.release_misused owned).trans invariant.respected.1, invariant.respected.2⟩ }

theorem Invariant.lockExt {after : State}
    (locked : state.lockExt cmd next = some after) (into : next.atDispatch = true)
    (section_ : next.inSection = (state.phase cmd).inSection)
    (holds : next.holds = (state.phase cmd).holds) (asleep : next.woken = false) : Invariant after := by
  obtain ⟨lock, acquired, rfl⟩ := Option.map_eq_some_iff.mp locked
  obtain ⟨free, rfl⟩ := Lock.acquire_eq_some.mp acquired
  have dispatch := invariant.dispatch
  rw [free] at dispatch
  obtain ⟨holder, guards, unreserved⟩ := invariant.holder
  exact
    { inSection := invariant.inSection.stay section_
      dispatch := dispatch.enter into
      holder := ⟨holder, guards.stay holds, unreserved⟩
      unwoken := unwoken_update invariant.unwoken asleep
      reserving := by
        refine reserving_update invariant.reserving fun same => ?_
        rw [same] at into
        cases into
      queue := invariant.queue
      granted := invariant.granted
      respected := invariant.respected }

theorem Invariant.unlockExt (inside : (state.phase cmd).atDispatch = true) (out : next.atDispatch = false)
    (section_ : next.inSection = (state.phase cmd).inSection)
    (holds : next.holds = (state.phase cmd).holds) (asleep : next.woken = false)
    (own : next ≠ .reserving false) : Invariant (state.unlockExt cmd next) := by
  have owned := (invariant.dispatch cmd).mp inside
  have dispatch := invariant.dispatch
  rw [owned] at dispatch
  obtain ⟨holder, guards, unreserved⟩ := invariant.holder
  exact
    { inSection := invariant.inSection.stay section_
      dispatch := dispatch.leave out
      holder := ⟨holder, guards.stay holds, unreserved⟩
      unwoken := unwoken_update invariant.unwoken asleep
      reserving := reserving_update invariant.reserving fun same => absurd same own
      queue := invariant.queue
      granted := invariant.granted
      respected := ⟨invariant.respected.1, (Lock.release_misused owned).trans invariant.respected.2⟩ }

theorem Invariant.waitOnDependency
    (here : state.phase cmd = .locked false) : Invariant (state.waitOnDependency cmd) := by
  have suspended : Invariant (state.unlock cmd .suspended) :=
    invariant.unlock (by rw [here]; rfl) rfl (by rw [here]; rfl) (by rw [here]; rfl) rfl
  exact { suspended with queue := congrArg (· ++ [cmd]) invariant.queue }

theorem Invariant.reserve (inside : (state.phase cmd).inSection = true)
    (dispatch : (state.phase cmd).atDispatch = false)
    (unreserved : state.expReserved = false) : Invariant (state.reserve cmd false) := by
  obtain ⟨holder, guards, free⟩ := invariant.holder
  obtain rfl := free unreserved
  exact
    { inSection := invariant.inSection.stay inside.symm
      dispatch := invariant.dispatch.stay dispatch.symm
      holder := ⟨some cmd, guards.enter rfl, fun reset => by cases reset⟩
      unwoken := unwoken_update invariant.unwoken rfl
      reserving := by
        intro other reserving
        change update state.phase cmd _ other = _ at reserving
        by_cases isCmd : other = cmd
        · rw [isCmd, update_self] at reserving
          cases reserving
        · rw [update_of_ne isCmd] at reserving
          have otherInside : (state.phase other).inSection = true := by rw [reserving]; rfl
          exact absurd (invariant.inSection.unique otherInside inside) isCmd
      queue := invariant.queue
      granted := invariant.granted
      respected := invariant.respected }

theorem Invariant.clear (here : state.phase cmd = .clearing)
    (nobody : state.waitingCmds = []) : Invariant (state.clear cmd) := by
  obtain ⟨holder, guards, -⟩ := invariant.holder
  have held : holder = some cmd := (guards cmd).mp (by rw [here]; rfl)
  rw [held] at guards
  rw [State.clear, nobody]
  exact
    { inSection := invariant.inSection.stay (by rw [here]; rfl)
      dispatch := invariant.dispatch.stay (by rw [here]; rfl)
      holder := ⟨none, guards.leave rfl, fun _ => rfl⟩
      unwoken := unwoken_update invariant.unwoken rfl
      reserving := fun _ _ => rfl
      queue := invariant.queue
      granted := invariant.granted
      respected := invariant.respected }

end

end

theorem step_kept {state next : State} {input : Nat × Action} (invariant : Invariant state)
    (nobody : NobodyWaits state input) (stepped : step state input = some next) : Invariant next := by
  obtain ⟨cmd, action⟩ := input
  have unwoken := invariant.unwoken cmd
  cases here : state.phase cmd with
  | idle =>
    cases action <;> simp only [step, here, Option.some.injEq, reduceCtorEq] at stepped
    case qLock startNextCmd =>
      subst stepped
      exact invariant.enter (by rw [here]; rfl) (by rw [here]; rfl) (by rw [here]; rfl) rfl (by simp)
    case tsLock =>
      subst stepped
      exact invariant.enter (by rw [here]; rfl) (by rw [here]; rfl) (by rw [here]; rfl) rfl (by simp)
    case dispatch =>
      exact invariant.lockExt stepped rfl (by rw [here]; rfl) (by rw [here]; rfl) rfl
  | dispatching =>
    cases action <;> simp only [step, here, Option.some.injEq, reduceCtorEq] at stepped
    subst stepped
    exact invariant.unlockExt (by rw [here]; rfl) rfl (by rw [here]; rfl) (by rw [here]; rfl) rfl (by simp)
  | entering startNextCmd =>
    cases action <;> simp only [step, here, reduceCtorEq] at stepped
    exact invariant.lock stepped rfl (by rw [here]; rfl) (by rw [here]; rfl) rfl (by simp)
  | locked startNextCmd =>
    cases startNextCmd with
    | true =>
      cases action <;> simp only [step, here, reduceCtorEq] at stepped
      exact invariant.lockExt stepped rfl (by rw [here]; rfl) (by rw [here]; rfl) rfl
    | false =>
      cases action <;> simp only [step, here, reduceCtorEq] at stepped
      split at stepped
      next reserved =>
        obtain rfl := Option.some.inj stepped
        exact invariant.waitOnDependency here
      next unreserved =>
        obtain rfl := Option.some.inj stepped
        have unset : state.expReserved = false := by simpa using unreserved
        exact invariant.enter (by rw [here]; rfl) (by rw [here]; rfl) (by rw [here]; rfl) rfl fun _ => unset
  | safeToDoNext =>
    cases action <;> simp only [step, here, Option.some.injEq, reduceCtorEq] at stepped
    subst stepped
    exact invariant.unlockExt (by rw [here]; rfl) rfl (by rw [here]; rfl) (by rw [here]; rfl) rfl (by simp)
  | suspended => cases action <;> simp only [step, here, reduceCtorEq] at stepped
  | signalled => simp [here, Phase.woken] at unwoken
  | awake => simp [here, Phase.woken] at unwoken
  | reserving waited =>
    cases waited with
    | true => simp [here, Phase.woken] at unwoken
    | false =>
      cases action <;> simp only [step, here, Option.some.injEq, reduceCtorEq] at stepped
      subst stepped
      exact invariant.reserve (by rw [here]; rfl) (by rw [here]; rfl) (invariant.reserving cmd here)
  | leaving waited =>
    cases waited with
    | true => simp [here, Phase.woken] at unwoken
    | false =>
      cases action <;> simp only [step, here, Option.some.injEq, reduceCtorEq] at stepped
      subst stepped
      exact invariant.unlock (by rw [here]; rfl) rfl (by rw [here]; rfl) (by rw [here]; rfl) rfl
  | holding =>
    cases action <;> simp only [step, here, Option.some.injEq, reduceCtorEq] at stepped
    subst stepped
    exact invariant.enter (by rw [here]; rfl) (by rw [here]; rfl) (by rw [here]; rfl) rfl (by simp)
  | unlocking =>
    cases action <;> simp only [step, here, reduceCtorEq] at stepped
    exact invariant.lock stepped rfl (by rw [here]; rfl) (by rw [here]; rfl) rfl (by simp)
  | clearing =>
    cases action <;> simp only [step, here, Option.some.injEq, reduceCtorEq] at stepped
    subst stepped
    exact invariant.clear here (nobody here rfl)
  | cleared =>
    cases action <;> simp only [step, here, Option.some.injEq, reduceCtorEq] at stepped
    subst stepped
    exact invariant.unlock (by rw [here]; rfl) rfl (by rw [here]; rfl) (by rw [here]; rfl) rfl
  | trying =>
    cases action <;> simp only [step, here, reduceCtorEq] at stepped
    exact invariant.lock stepped rfl (by rw [here]; rfl) (by rw [here]; rfl) rfl (by simp)
  | testing =>
    cases action <;> simp only [step, here, reduceCtorEq] at stepped
    split at stepped
    next reserved =>
      obtain rfl := Option.some.inj stepped
      exact invariant.enter (by rw [here]; rfl) (by rw [here]; rfl) (by rw [here]; rfl) rfl (by simp)
    next unreserved =>
      obtain rfl := Option.some.inj stepped
      exact invariant.reserve (by rw [here]; rfl) (by rw [here]; rfl) (by simpa using unreserved)
  | failed =>
    cases action <;> simp only [step, here, Option.some.injEq, reduceCtorEq] at stepped
    subst stepped
    exact invariant.unlock (by rw [here]; rfl) rfl (by rw [here]; rfl) (by rw [here]; rfl) rfl

theorem allClear_history (state : State) (cmd : Nat) :
    (state.allClear cmd).arrived = state.arrived ∧ (state.allClear cmd).granted = state.granted ∧
      (state.allClear cmd).waitingCmds = state.waitingCmds := by
  unfold State.allClear
  split
  · exact ⟨rfl, rfl, rfl⟩
  · exact ⟨rfl, rfl, rfl⟩

theorem step_broken {state : State} {input : Nat × Action} (invariant : Invariant state)
    (somebody : ¬ NobodyWaits state input) : ∃ next, step state input = some next ∧ ¬ next.Correct := by
  obtain ⟨cmd, action⟩ := input
  simp only [NobodyWaits, Classical.not_imp] at somebody
  obtain ⟨here, rfl, waiting⟩ := somebody
  obtain ⟨first, rest, queue⟩ := List.exists_cons_of_ne_nil waiting
  refine ⟨state.clear cmd, by simp only [step, here], fun correct => ?_⟩
  have history : (state.clear cmd).arrived = first :: rest ∧ (state.clear cmd).granted = [] ∧
      (state.clear cmd).waitingCmds = rest := by
    obtain ⟨arrived, granted, waitingCmds⟩ :=
      allClear_history { state with waitingCmds := rest } first
    rw [State.clear, queue]
    exact ⟨arrived.trans (invariant.queue.trans queue), granted.trans invariant.granted, waitingCmds⟩
  have counted := correct.noneLost first
  rw [history.1, history.2.1, history.2.2, List.count_cons_self, List.count_nil] at counted
  omega

/-- Commands interleave correctly exactly as long as no reservation is given back while a
command waits for it. -/
theorem reservation_correct_iff (steps : List (Nat × Action)) :
    Runs.Always State.Correct step initial steps ↔ Runs.Along NobodyWaits step initial steps :=
  Runs.always_iff_along Invariant (fun _ invariant => invariant.correct)
    (fun _ _ _ invariant nobody stepped => step_kept invariant nobody stepped)
    (fun _ _ invariant somebody => step_broken invariant somebody) initial_invariant

/-- The commands 0 and 1 want the reservation, command 1 waits and is woken; command 2 comes
in between. -/
def newcomer : List (Nat × Action) :=
  let reserving (cmd : Nat) := (cmd, Action.qLock false) :: List.replicate 4 (cmd, .proceed)
  reserving 0 ++ [(1, .qLock false), (1, .proceed), (1, .proceed), (0, .qUnLock)] ++
    List.replicate 3 (0, .proceed) ++ reserving 2 ++ List.replicate 4 (1, .proceed)

theorem newcomer_shares_reservation :
    ¬ Runs.Always State.Correct step initial newcomer ∧ (Runs.run step initial newcomer).map (fun state =>
        (state.phase 1, state.phase 2, state.experimentLock.misused)) =
        some (.holding, .holding, [1]) := by
  refine ⟨fun always => ?_, by decide⟩
  obtain ⟨final, ran, ended⟩ : ∃ final, Runs.run step initial newcomer = some final ∧
      (final.phase 1, final.phase 2) = (.holding, .holding) := ⟨_, rfl, by decide⟩
  obtain ⟨first, second⟩ := Prod.mk.inj ended
  rw [← List.append_nil newcomer] at always
  have correct : final.Correct := always.of_run ran
  exact absurd (correct.exclusive 1 2 (by rw [first]; rfl) (by rw [second]; rfl)) (by decide)

end Reservation

end OpenSpeedShop
