import Mathlib.Init

/-!
Stateful programs with exceptions and assertions. An exception keeps the state reached; a failed
assertion ends the program and leaves none behind.
-/

inductive Outcome (State Error Value : Type)
  | returned (value : Value) (state : State)
  | thrown (error : Error) (state : State)
  | aborted

namespace Outcome

variable {State Error Value : Type}

def state? : Outcome State Error Value → Option State
  | returned _ state => some state
  | thrown _ state => some state
  | aborted => none

end Outcome

def Procedure (State Error Value : Type) := State → Outcome State Error Value

namespace Procedure

variable {State Part Error Value Next : Type}

protected def pure (value : Value) : Procedure State Error Value :=
  fun state => .returned value state

protected def bind (first : Procedure State Error Value) (next : Value → Procedure State Error Next) :
    Procedure State Error Next := fun state =>
  match first state with
  | .returned value state => next value state
  | .thrown error state => .thrown error state
  | .aborted => .aborted

instance : Monad (Procedure State Error) where
  pure := Procedure.pure
  bind := Procedure.bind

def throw (error : Error) : Procedure State Error Value := fun state => .thrown error state

def abort : Procedure State Error Value := fun _ => .aborted

def assert (condition : Bool) : Procedure State Error Unit := fun state =>
  if condition then .returned () state else .aborted

def get : Procedure State Error State := fun state => .returned state state

def modify (change : State → State) : Procedure State Error Unit := fun state =>
  .returned () (change state)

/-- `try { body } catch(...) { cleanup; throw; }`: the cleanup runs in the state
of the exception, which is thrown again unless the cleanup itself throws. -/
def onException (body : Procedure State Error Value) (cleanup : Procedure State Error Unit) :
    Procedure State Error Value := fun state =>
  match body state with
  | .returned value state => .returned value state
  | .thrown error state =>
    match cleanup state with
    | .returned _ state => .thrown error state
    | .thrown error state => .thrown error state
    | .aborted => .aborted
  | .aborted => .aborted

def within (read : State → Part) (write : State → Part → State)
    (action : Procedure Part Error Value) : Procedure State Error Value := fun state =>
  match action (read state) with
  | .returned value part => .returned value (write state part)
  | .thrown error part => .thrown error (write state part)
  | .aborted => .aborted

theorem bind_apply (first : Procedure State Error Value) (next : Value → Procedure State Error Next)
    (state : State) : (first >>= next) state = match first state with
      | .returned value state => next value state
      | .thrown error state => .thrown error state
      | .aborted => .aborted := rfl

/-- What must hold before an action so that `post` holds if it returns and
`raised` holds if it throws. Nothing is asked of an action that aborts. -/
def wlp (action : Procedure State Error Value) (post : Value → State → Prop)
    (raised : Error → State → Prop) (state : State) : Prop :=
  match action state with
  | .returned value after => post value after
  | .thrown error after => raised error after
  | .aborted => True

variable {action : Procedure State Error Value} {raised : Error → State → Prop}

variable {post : Value → State → Prop} {state after : State}

theorem wlp_of_returned {value : Value}
    (holds : action.wlp post raised state) (ran : action state = .returned value after) :
    post value after := by
  simpa only [wlp, ran] using holds

theorem wlp_of_thrown {error : Error}
    (holds : action.wlp post raised state) (ran : action state = .thrown error after) :
    raised error after := by
  simpa only [wlp, ran] using holds

theorem wlp_intro
    {state : State} (returns : ∀ value after, action state = .returned value after → post value after)
    (throws : ∀ error after, action state = .thrown error after → raised error after) :
    action.wlp post raised state := by
  unfold wlp
  cases ran : action state with
  | returned value after => exact returns value after ran
  | thrown error after => exact throws error after ran
  | aborted => trivial

theorem wlp_state? {holds : State → Prop} {state after : State}
    (safe : action.wlp (fun _ => holds) (fun _ => holds) state)
    (ran : (action state).state? = some after) : holds after := by
  unfold wlp at safe
  cases outcome : action state with
  | returned value next | thrown error next =>
    rw [outcome] at safe ran
    cases ran
    exact safe
  | aborted =>
    rw [outcome] at ran
    cases ran

theorem wlp_mono {post post' : Value → State → Prop}
    {raised raised' : Error → State → Prop} {state : State} (holds : action.wlp post raised state)
    (weaken : ∀ value after, post value after → post' value after)
    (weakenRaised : ∀ error after, raised error after → raised' error after) :
    action.wlp post' raised' state := by
  unfold wlp at holds ⊢
  cases ran : action state with
  | returned value after =>
    rw [ran] at holds
    exact weaken value after holds
  | thrown error after =>
    rw [ran] at holds
    exact weakenRaised error after holds
  | aborted => trivial

@[simp] theorem wlp_pure (value : Value) (post : Value → State → Prop)
    (raised : Error → State → Prop) (state : State) :
    wlp (pure value : Procedure State Error Value) post raised state ↔ post value state := Iff.rfl

@[simp] theorem wlp_bind (first : Procedure State Error Value)
    (next : Value → Procedure State Error Next) (post : Next → State → Prop)
    (raised : Error → State → Prop) (state : State) : wlp (first >>= next) post raised state ↔
      first.wlp (fun value => (next value).wlp post raised) raised state := by
  simp only [wlp, bind_apply]
  cases first state <;> rfl

@[simp] theorem wlp_throw (error : Error) (post : Value → State → Prop)
    (raised : Error → State → Prop) (state : State) :
    wlp (throw error : Procedure State Error Value) post raised state ↔ raised error state := Iff.rfl

@[simp] theorem wlp_abort (post : Value → State → Prop) (raised : Error → State → Prop)
    (state : State) : wlp (abort : Procedure State Error Value) post raised state ↔ True := Iff.rfl

@[simp] theorem wlp_get (post : State → State → Prop) (raised : Error → State → Prop) (state : State) :
    wlp (get : Procedure State Error State) post raised state ↔ post state state := Iff.rfl

@[simp] theorem wlp_modify (change : State → State) (post : Unit → State → Prop)
    (raised : Error → State → Prop) (state : State) :
    wlp (modify change : Procedure State Error Unit) post raised state ↔ post () (change state) :=
  Iff.rfl

@[simp] theorem wlp_assert (condition : Bool) (post : Unit → State → Prop)
    (raised : Error → State → Prop) (state : State) :
    wlp (assert condition : Procedure State Error Unit) post raised state ↔
      (condition = true → post () state) := by
  cases condition <;> simp [wlp, assert]

theorem wlp_onException (body : Procedure State Error Value) (cleanup : Procedure State Error Unit)
    (post : Value → State → Prop) (raised : Error → State → Prop) (state : State) :
    wlp (onException body cleanup) post raised state ↔
      body.wlp post (fun error => cleanup.wlp (fun _ => raised error) raised) state := by
  simp only [wlp, onException]
  cases body state with
  | returned => rfl
  | thrown error after =>
    simp only
    cases cleanup after <;> rfl
  | aborted => rfl

theorem wlp_within (read : State → Part) (write : State → Part → State)
    (action : Procedure Part Error Value) (post : Value → State → Prop)
    (raised : Error → State → Prop) (state : State) : wlp (within read write action) post raised state ↔
      action.wlp (fun value part => post value (write state part))
        (fun error part => raised error (write state part)) (read state) := by
  simp only [wlp, within]
  cases action (read state) <;> rfl

end Procedure
