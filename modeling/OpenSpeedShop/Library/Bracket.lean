import Mathlib.Data.List.Basic

/-!
Programs that take resources, give them back, and can be left by an exception in between. A
program is the list of what it took and gave, with how it ended; outside calls are inputs.
-/

namespace Bracket

inductive Event (Resource : Type)
  | take (resource : Resource)
  | give (resource : Resource)
  deriving DecidableEq

inductive Ending (Value : Type)
  | returned (value : Value)
  | thrown
  deriving DecidableEq

def Alternates {Resource : Type} : List (Event Resource) → Prop
  | [] => True
  | .take _ :: .give _ :: rest => Alternates rest
  | _ => False

section

variable {Resource : Type} [DecidableEq Resource]

def Event.isOf (resource : Resource) : Event Resource → Bool
  | take taken => taken = resource
  | give given => given = resource

def Balanced (events : List (Event Resource)) : Prop :=
  ∀ resource, Alternates (events.filter (Event.isOf resource))

theorem balanced_nil : Balanced ([] : List (Event Resource)) := fun _ => trivial

theorem balanced_pair {resource : Resource} {rest : List (Event Resource)} :
    Balanced (.take resource :: .give resource :: rest) ↔ Balanced rest := by
  refine forall_congr' fun other => ?_
  by_cases same : resource = other
  · simp [Event.isOf, same, Alternates]
  · simp [Event.isOf, same]

theorem not_balanced_take (resource : Resource) : ¬ Balanced [Event.take resource] := by
  intro balanced
  have alternates := balanced resource
  simp [Event.isOf, Alternates] at alternates

end

structure Action (Resource Value : Type) where
  events : List (Event Resource)
  ending : Ending Value

namespace Action

variable {Resource Value Next : Type}

protected def pure (value : Value) : Action Resource Value := ⟨[], .returned value⟩

protected def bind (action : Action Resource Value) (next : Value → Action Resource Next) :
    Action Resource Next :=
  match action.ending with
  | .returned value => ⟨action.events ++ (next value).events, (next value).ending⟩
  | .thrown => ⟨action.events, .thrown⟩

instance : Monad (Action Resource) where
  pure := Action.pure
  bind := Action.bind

theorem bind_def (action : Action Resource Value) (next : Value → Action Resource Next) :
    action >>= next = action.bind next := rfl

theorem id_map (action : Action Resource Value) : id <$> action = action := by
  obtain ⟨events, ending⟩ := action
  cases ending with
  | returned value => exact congrArg (Action.mk · _) (List.append_nil events)
  | thrown => rfl

theorem bind_assoc {Last : Type} (action : Action Resource Value)
    (next : Value → Action Resource Next) (last : Next → Action Resource Last) :
    action >>= next >>= last = action >>= fun value => next value >>= last := by
  obtain ⟨events, ending⟩ := action
  cases ending with
  | thrown => rfl
  | returned value =>
    simp only [bind_def, Action.bind]
    cases (next value).ending with
    | thrown => rfl
    | returned other => exact congrArg (Action.mk · _) (List.append_assoc ..)

instance : LawfulMonad (Action Resource) :=
  LawfulMonad.mk' (Action Resource) id_map (fun _ _ => rfl) bind_assoc

def take (resource : Resource) : Action Resource Unit := ⟨[.take resource], .returned ()⟩

def give (resource : Resource) : Action Resource Unit := ⟨[.give resource], .returned ()⟩

def throw : Action Resource Value := ⟨[], .thrown⟩

/-- `try { body } catch(...) { handler }`. -/
def catching (body handler : Action Resource Value) : Action Resource Value :=
  match body.ending with
  | .returned value => ⟨body.events, .returned value⟩
  | .thrown => ⟨body.events ++ handler.events, handler.ending⟩

end Action

inductive Outcome
  | returns | throws
  deriving DecidableEq

def AllReturn (outcomes : List Outcome) : Prop := ∀ outcome ∈ outcomes, outcome = .returns

instance (outcomes : List Outcome) : Decidable (AllReturn outcomes) :=
  inferInstanceAs (Decidable (∀ outcome ∈ outcomes, outcome = .returns))

inductive Attempt
  | succeeds | fails | throws
  deriving DecidableEq

section

variable {Resource Value : Type}

def call : Outcome → Action Resource Unit
  | .returns => pure ()
  | .throws => .throw

def calls : List Outcome → Action Resource Unit
  | [] => pure ()
  | outcome :: rest => do
      call outcome
      calls rest

def attempt : Attempt → Action Resource Bool
  | .succeeds => pure true
  | .fails => pure false
  | .throws => .throw

def forEach {Item : Type} (body : Item → Action Resource Bool) : List Item → Action Resource Bool
  | [] => pure true
  | item :: rest => do
      if ← body item then forEach body rest else return false

end

section

variable {Resource Value : Type} [DecidableEq Resource]

def Action.Balanced (action : Action Resource Value) : Prop := Bracket.Balanced action.events

def Action.Closes (action : Action Resource Value) (resource : Resource) : Prop :=
  Bracket.Balanced (.take resource :: action.events)

variable {Next : Type} {resource : Resource} {next : Value → Action Resource Next}

@[simp] theorem balanced_pure (value : Value) : (pure value : Action Resource Value).Balanced := balanced_nil

@[simp] theorem not_closes_pure (value : Value) :
    ¬ (pure value : Action Resource Value).Closes resource := not_balanced_take resource

@[simp] theorem balanced_throw : (Action.throw : Action Resource Value).Balanced := balanced_nil

@[simp] theorem not_closes_throw : ¬ (Action.throw : Action Resource Value).Closes resource :=
  not_balanced_take resource

@[simp] theorem balanced_take {next : Unit → Action Resource Next} :
    (Action.take resource >>= next).Balanced ↔ (next ()).Closes resource := Iff.rfl

@[simp] theorem closes_give {next : Unit → Action Resource Next} :
    (Action.give resource >>= next).Closes resource ↔ (next ()).Balanced := balanced_pair

omit [DecidableEq Resource] in
@[simp] theorem throw_bind : (Action.throw : Action Resource Value) >>= next = Action.throw := rfl

omit [DecidableEq Resource] in
theorem calls_eq (outcomes : List Outcome) : (calls outcomes : Action Resource Unit) =
      if AllReturn outcomes then pure () else .throw := by
  induction outcomes with
  | nil => rfl
  | cons outcome rest ih =>
    cases outcome with
    | returns =>
      have step : AllReturn (.returns :: rest) ↔ AllReturn rest := by simp [AllReturn]
      rw [calls, ih, if_congr step rfl rfl]
      rfl
    | throws =>
      rw [if_neg fun all => by simpa using all _ List.mem_cons_self]
      rfl

@[simp] theorem closes_call {outcome : Outcome} {next : Unit → Action Resource Next} :
    (call outcome >>= next).Closes resource ↔ outcome = .returns ∧ (next ()).Closes resource := by
  cases outcome <;> simp [call]

@[simp] theorem balanced_calls {outcomes : List Outcome} {next : Unit → Action Resource Next} :
    (calls outcomes >>= next).Balanced ↔ (AllReturn outcomes → (next ()).Balanced) := by
  rw [calls_eq]
  split
  next all => simp [all]
  next throws => simp [throws]

@[simp] theorem closes_calls {outcomes : List Outcome} {next : Unit → Action Resource Next} :
    (calls outcomes >>= next).Closes resource ↔ AllReturn outcomes ∧ (next ()).Closes resource := by
  rw [calls_eq]
  split
  next all => simp [all]
  next throws => simp [throws]

variable {next : Bool → Action Resource Next}

/-- A program that reports success or failure, with when it is balanced, and when it then
reports success. -/
def Action.Reports (action : Action Resource Bool) (holds succeeds : Prop) : Prop :=
  ∀ next : Action Resource Bool,
    (action >>= fun success => if success then next else pure false).Balanced ↔
      holds ∧ (succeeds → next.Balanced)

theorem Action.Reports.balanced {action : Action Resource Bool} {holds succeeds : Prop}
    (rule : action.Reports holds succeeds) : action.Balanced ↔ holds := by
  have same : (fun success => if success then pure true else pure false) =
      (pure : Bool → Action Resource Bool) := by
    funext success
    cases success <;> rfl
  have whole := rule (pure true)
  rw [same, bind_pure] at whole
  simpa using whole

def ForEach {Item : Type} (holds goesOn : Item → Prop) : List Item → Prop
  | [] => True
  | item :: rest => holds item ∧ (goesOn item → ForEach holds goesOn rest)

theorem Action.Reports.forEach {Item : Type} {body : Item → Action Resource Bool}
    {holds succeeds : Item → Prop} (rule : ∀ item, (body item).Reports (holds item) (succeeds item))
    (items : List Item) : (forEach body items).Balanced ↔ ForEach holds succeeds items := by
  induction items with
  | nil => exact iff_of_true (balanced_pure true) trivial
  | cons item rest ih => rw [Bracket.forEach, rule item, ForEach, ih]

end

end Bracket
