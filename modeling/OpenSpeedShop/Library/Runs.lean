import Mathlib.Data.List.Induction

/-!
Runs of a partial step function: a list of inputs is fed to the step function
from left to right, and the run is defined when every step is.
-/

namespace Runs

variable {State Input : Type*}

def run (step : State → Input → Option State) (start : State) (inputs : List Input) : Option State :=
  inputs.foldlM step start

@[simp] theorem run_nil (step : State → Input → Option State) (start : State) :
    run step start [] = some start := rfl

theorem run_cons (step : State → Input → Option State) (start : State) (input : Input) (rest : List Input) :
    run step start (input :: rest) = (step start input).bind fun next => run step next rest := rfl

theorem run_append (step : State → Input → Option State) (start : State) (first second : List Input) :
    run step start (first ++ second) = (run step start first).bind fun next => run step next second := by
  induction first generalizing start with
  | nil => rfl
  | cons input rest ih =>
    simp only [List.cons_append, run_cons, Option.bind_assoc]
    exact congrArg _ (funext ih)

section

variable {step : State → Input → Option State} {start : State}

theorem run_history (Relates : List Input → State → Prop) (initial : Relates [] start)
    (preserved : ∀ seen state input next, Relates seen state →
      step state input = some next → Relates (seen ++ [input]) next)
    {inputs : List Input} {final : State} (ran : run step start inputs = some final) :
    Relates inputs final := by
  induction inputs using List.reverseRecOn generalizing final with
  | nil =>
    simp only [run_nil, Option.some.injEq] at ran
    exact ran ▸ initial
  | append_singleton seen input ih =>
    rw [run_append] at ran
    obtain ⟨middle, reached, last⟩ := Option.bind_eq_some_iff.mp ran
    have stepped : step middle input = some final := by
      simpa [run_cons] using last
    exact preserved seen middle input final (ih reached) stepped

theorem run_total (Relates : List Input → State → Prop) (initial : Relates [] start) {inputs : List Input}
    (each : ∀ seen input rest state, inputs = seen ++ input :: rest → Relates seen state →
      ∃ next, step state input = some next ∧ Relates (seen ++ [input]) next) :
    ∃ final, run step start inputs = some final ∧ Relates inputs final := by
  induction inputs using List.reverseRecOn with
  | nil => exact ⟨start, rfl, initial⟩
  | append_singleton seen input ih =>
    obtain ⟨middle, reached, related⟩ := ih fun before other rest state split =>
      each before other (rest ++ [input]) state (by rw [split]; simp)
    obtain ⟨final, stepped, relatedFinal⟩ := each seen input [] middle rfl related
    exact ⟨final, by rw [run_append, reached]; simp [run_cons, stepped], relatedFinal⟩

theorem run_invariant (Holds : State → Prop) (initial : Holds start)
    (preserved : ∀ state input next, Holds state → step state input = some next → Holds next)
    {inputs : List Input} {final : State} (ran : run step start inputs = some final) : Holds final :=
  run_history (fun _ state => Holds state) initial
    (fun _ state input next held stepped => preserved state input next held stepped) ran

end

def Along (condition : State → Input → Prop) (step : State → Input → Option State) : State → List Input → Prop
  | _, [] => True
  | state, input :: rest => condition state input ∧
      ∀ next, step state input = some next → Along condition step next rest

section

variable {condition : State → Input → Prop} {step : State → Input → Option State}

theorem along_cons {state next : State} {input : Input} {rest : List Input} (met : condition state input)
    (stepped : step state input = some next) (along : Along condition step next rest) :
    Along condition step state (input :: rest) := by
  refine ⟨met, fun other steppedOther => ?_⟩
  obtain rfl := Option.some.inj (stepped.symm.trans steppedOther)
  exact along

theorem along_and {other : State → Input → Prop} {inputs : List Input} : ∀ {start : State},
    Along (fun state input => condition state input ∧ other state input) step start inputs ↔
      Along condition step start inputs ∧ Along other step start inputs := by
  induction inputs with
  | nil => simp [Along]
  | cons input rest ih =>
    intro start
    simp only [Along, ih, forall_and]
    tauto

theorem along_append {first second : List Input} : ∀ {start middle : State},
    Along condition step start (first ++ second) → run step start first = some middle →
      Along condition step start first ∧ Along condition step middle second := by
  induction first with
  | nil =>
    intro start middle along ran
    rw [run_nil, Option.some.injEq] at ran
    exact ⟨trivial, ran ▸ along⟩
  | cons input rest ih =>
    intro start middle along ran
    rw [run_cons] at ran
    obtain ⟨next, stepped, remaining⟩ := Option.bind_eq_some_iff.mp ran
    obtain ⟨alongRest, alongSecond⟩ := ih (along.2 next stepped) remaining
    exact ⟨along_cons along.1 stepped alongRest, alongSecond⟩

theorem run_invariant_along (Holds : State → Prop)
    (preserved : ∀ state input next, Holds state → condition state input →
      step state input = some next → Holds next) {inputs : List Input} :
    ∀ {start final : State}, Holds start → Along condition step start inputs →
      run step start inputs = some final → Holds final := by
  induction inputs with
  | nil =>
    intro start final initial _ ran
    simp only [run_nil, Option.some.injEq] at ran
    exact ran ▸ initial
  | cons input rest ih =>
    intro start final initial along ran
    rw [run_cons] at ran
    obtain ⟨next, stepped, remaining⟩ := Option.bind_eq_some_iff.mp ran
    exact ih (preserved start input next initial along.1 stepped) (along.2 next stepped) remaining

end

section

variable {wanted condition : State → Input → Prop} {step : State → Input → Option State}
  (Invariant : State → Prop)
include Invariant

theorem along_iff_along
    (agree : ∀ state input, Invariant state → (wanted state input ↔ condition state input))
    (preserved : ∀ state input next, Invariant state → condition state input →
      step state input = some next → Invariant next) {inputs : List Input} :
    ∀ {start : State}, Invariant start →
      (Along wanted step start inputs ↔ Along condition step start inputs) := by
  induction inputs with
  | nil => exact fun _ => Iff.rfl
  | cons input rest ih =>
    intro start invariant
    rw [Along, Along, agree start input invariant]
    refine and_congr_right fun met => forall_congr' fun next => ?_
    exact forall_congr' fun stepped => ih (preserved start input next invariant met stepped)

theorem along_of_along (ensures : ∀ state input, Invariant state → condition state input → wanted state input)
    (preserved : ∀ state input next, Invariant state → condition state input →
      step state input = some next → Invariant next) {inputs : List Input} :
    ∀ {start : State}, Invariant start → Along condition step start inputs →
      Along wanted step start inputs := by
  induction inputs with
  | nil => exact fun _ along => along
  | cons input rest ih =>
    rintro start invariant ⟨met, along⟩
    exact ⟨ensures start input invariant met, fun next stepped =>
      ih (preserved start input next invariant met stepped) (along next stepped)⟩

end

section

variable {condition : State → Input → Prop} {step : State → Input → Option State}

theorem isSome_run_iff_along (Invariant : State → Prop)
    (agree : ∀ state input, Invariant state → ((step state input).isSome ↔ condition state input))
    (preserved : ∀ state input next, Invariant state → step state input = some next →
      Invariant next) {inputs : List Input} : ∀ {start : State}, Invariant start →
      ((run step start inputs).isSome ↔ Along condition step start inputs) := by
  induction inputs with
  | nil => exact fun _ => ⟨fun _ => trivial, fun _ => rfl⟩
  | cons input rest ih =>
    intro start invariant
    rw [run_cons, Along, ← agree start input invariant]
    cases stepped : step start input with
    | none => simp
    | some next =>
      rw [Option.bind_some, ih (preserved start input next invariant stepped)]
      simp

theorem along_or_broken {Healthy Broken : State → Prop}
    (kept : ∀ state input next, Healthy state → condition state input →
      step state input = some next → Healthy next)
    (breaks : ∀ state input next, Healthy state → ¬ condition state input →
      step state input = some next → Broken next)
    (stays : ∀ state input next, Broken state → step state input = some next → Broken next)
    {inputs : List Input} : ∀ {start final : State}, Healthy start → run step start inputs = some final →
      Along condition step start inputs ∧ Healthy final ∨
        ¬ Along condition step start inputs ∧ Broken final := by
  induction inputs with
  | nil =>
    intro start final healthy ran
    simp only [run_nil, Option.some.injEq] at ran
    exact Or.inl ⟨trivial, ran ▸ healthy⟩
  | cons input rest ih =>
    intro start final healthy ran
    rw [run_cons] at ran
    obtain ⟨next, stepped, remaining⟩ := Option.bind_eq_some_iff.mp ran
    by_cases met : condition start input
    · rcases ih (kept start input next healthy met stepped) remaining with
        ⟨along, healthyFinal⟩ | ⟨notAlong, broken⟩
      · refine Or.inl ⟨⟨met, fun other steppedOther => ?_⟩, healthyFinal⟩
        obtain rfl := Option.some.inj (stepped.symm.trans steppedOther)
        exact along
      · exact Or.inr ⟨fun along => notAlong (along.2 next stepped), broken⟩
    · exact Or.inr ⟨fun along => met along.1,
        run_invariant Broken (breaks start input next healthy met stepped) stays remaining⟩

end

def Always (Holds : State → Prop) (step : State → Input → Option State) : State → List Input → Prop
  | state, [] => Holds state
  | state, input :: rest => Holds state ∧ ∀ next, step state input = some next → Always Holds step next rest

theorem Always.of_run {Holds : State → Prop} {step : State → Input → Option State}
    {seen rest : List Input} : ∀ {start middle : State}, Always Holds step start (seen ++ rest) →
      run step start seen = some middle → Holds middle := by
  induction seen with
  | nil =>
    intro start middle always ran
    obtain rfl := Option.some.inj ran
    cases rest with
    | nil => exact always
    | cons input rest => exact always.1
  | cons input seen ih =>
    intro start middle always ran
    rw [run_cons] at ran
    obtain ⟨next, stepped, remaining⟩ := Option.bind_eq_some_iff.mp ran
    exact ih (always.2 next stepped) remaining

section

variable {condition : State → Input → Prop} {step : State → Input → Option State}

theorem always_iff_along
    {Holds : State → Prop} (Invariant : State → Prop) (holds : ∀ state, Invariant state → Holds state)
    (preserved : ∀ state input next, Invariant state → condition state input →
      step state input = some next → Invariant next)
    (broken : ∀ state input, Invariant state → ¬ condition state input →
      ∃ next, step state input = some next ∧ ¬ Holds next) {inputs : List Input} :
    ∀ {start : State}, Invariant start →
      (Always Holds step start inputs ↔ Along condition step start inputs) := by
  induction inputs with
  | nil => exact fun invariant => ⟨fun _ => trivial, fun _ => holds _ invariant⟩
  | cons input rest ih =>
    intro start invariant
    constructor
    · rintro ⟨-, always⟩
      have met : condition start input := by
        by_contra unmet
        obtain ⟨next, stepped, fails⟩ := broken start input invariant unmet
        exact fails (@Always.of_run _ _ Holds step [] rest next next (always next stepped) rfl)
      exact ⟨met, fun next stepped =>
        (ih (preserved start input next invariant met stepped)).mp (always next stepped)⟩
    · rintro ⟨met, along⟩
      exact ⟨holds start invariant, fun next stepped =>
        (ih (preserved start input next invariant met stepped)).mpr (along next stepped)⟩

theorem along_iff_prefixes {Holds : List Input → State → Prop} (Relates : List Input → State → Prop)
    (holds : ∀ seen state, Relates seen state → Holds seen state)
    (preserved : ∀ seen state input, Relates seen state → condition state input →
      ∃ next, step state input = some next ∧ Relates (seen ++ [input]) next)
    (broken : ∀ seen state input next, Relates seen state → ¬ condition state input →
      step state input = some next → ¬ Holds (seen ++ [input]) next) {inputs : List Input} :
    ∀ {seen : List Input} {state : State}, Relates seen state →
      ((∀ part, part <+: inputs → ∃ next, run step state part = some next ∧
        Holds (seen ++ part) next) ↔ Along condition step state inputs) := by
  induction inputs with
  | nil =>
    intro seen state related
    refine ⟨fun _ => trivial, fun _ part inside => ?_⟩
    obtain rfl := List.prefix_nil.mp inside
    exact ⟨state, rfl, by simpa using holds seen state related⟩
  | cons input rest ih =>
    intro seen state related
    constructor
    · intro always
      have met : condition state input := by
        by_contra unmet
        obtain ⟨next, ran, kept⟩ := always [input] (List.prefix_append [input] rest)
        have stepped : step state input = some next := by simpa [run_cons] using ran
        exact broken seen state input next related unmet stepped kept
      refine ⟨met, fun next stepped => ?_⟩
      obtain ⟨same, reached, relatedNext⟩ := preserved seen state input related met
      obtain rfl : next = same := Option.some.inj (stepped.symm.trans reached)
      refine (ih relatedNext).mp fun part inside => ?_
      obtain ⟨final, ran, kept⟩ := always (input :: part) (List.cons_prefix_cons.mpr ⟨rfl, inside⟩)
      rw [run_cons, stepped, Option.bind_some] at ran
      exact ⟨final, ran, by simpa using kept⟩
    · rintro ⟨met, along⟩ part inside
      cases part with
      | nil => exact ⟨state, rfl, by simpa using holds seen state related⟩
      | cons first part =>
        obtain ⟨rfl, shorter⟩ := List.cons_prefix_cons.mp inside
        obtain ⟨next, stepped, relatedNext⟩ := preserved seen state first related met
        obtain ⟨final, ran, kept⟩ := (ih relatedNext).mpr (along next stepped) part shorter
        refine ⟨final, ?_, by simpa using kept⟩
        rw [run_cons, stepped, Option.bind_some, ran]

end

end Runs
