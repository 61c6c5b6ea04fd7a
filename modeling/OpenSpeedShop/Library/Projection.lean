import OpenSpeedShop.Library.Procedure

/-!
Actions that do to a part of their state what other actions do to it alone. An
action that aborts has no state left, and nothing is asked of it.
-/

namespace Procedure

variable {State Part Error Value Next : Type}

def Projects (view : State → Part) (invariant : State → Prop) (action : Procedure State Error Value)
    (part : Procedure Part Error Value) : Prop :=
  ∀ state, invariant state →
    action.wlp (fun value after => part (view state) = .returned value (view after) ∧ invariant after)
      (fun error after => part (view state) = .thrown error (view after) ∧ invariant after) state

variable {view : State → Part} {invariant : State → Prop}

theorem Projects.pure (value : Value) :
    Projects view invariant (pure value : Procedure State Error Value) (pure value) :=
  fun _ holds => ⟨rfl, holds⟩

variable {action : Procedure State Error Value} {part : Procedure Part Error Value}

variable {next : Value → Procedure State Error Next}

theorem Projects.bind {partNext : Value → Procedure Part Error Next}
    (first : Projects view invariant action part)
    (rest : ∀ value, Projects view invariant (next value) (partNext value)) :
    Projects view invariant (action >>= next) (part >>= partNext) := by
  intro state holds
  rw [wlp_bind]
  apply wlp_mono (first state holds)
  · rintro value middle ⟨ran, kept⟩
    rw [bind_apply, ran]
    exact rest value middle kept
  · rintro error after ⟨ran, kept⟩
    rw [bind_apply, ran]
    exact ⟨rfl, kept⟩

theorem Projects.silent {part : Procedure Part Error Next} (silent : ∀ state, invariant state → action.wlp
      (fun _ after => view after = view state ∧ invariant after) (fun _ _ => False) state)
    (rest : ∀ value, Projects view invariant (next value) part) :
    Projects view invariant (action >>= next) part := by
  intro state holds
  rw [wlp_bind]
  apply wlp_mono (silent state holds)
  · rintro value middle ⟨same, kept⟩
    rw [← same]
    exact rest value middle kept
  · exact fun _ _ impossible => impossible.elim

variable {next : State → Procedure State Error Next}

theorem Projects.get {partNext : Part → Procedure Part Error Next}
    (rest : ∀ read, invariant read → Projects view invariant (next read) (partNext (view read))) :
    Projects view invariant (get >>= next) (get >>= partNext) :=
  fun state holds => rest state holds state holds

theorem Projects.getOwn {part : Procedure Part Error Next}
    (rest : ∀ read, invariant read → Projects view invariant (next read) part) :
    Projects view invariant (Procedure.get >>= next) part :=
  fun state holds => rest state holds state holds

theorem Projects.abort (part : Procedure Part Error Value) : Projects view invariant abort part :=
  fun _ _ => trivial

theorem Projects.assert (condition : Bool) :
    Projects view invariant (assert condition : Procedure State Error Unit)
      (assert condition : Procedure Part Error Unit) := by
  intro state holds
  rw [wlp_assert]
  intro asserted
  rw [asserted]
  exact ⟨rfl, holds⟩

theorem Projects.state?
    (projects : Projects view invariant action part) {state after : State} (holds : invariant state)
    (ended : (action state).state? = some after) : (part (view state)).state? = some (view after) := by
  have same : action.wlp (fun _ next => (part (view state)).state? = some (view next))
      (fun _ next => (part (view state)).state? = some (view next)) state := by
    apply wlp_mono (projects state holds)
    · rintro value next ⟨ran, -⟩
      rw [ran]
      rfl
    · rintro error next ⟨ran, -⟩
      rw [ran]
      rfl
  exact @wlp_state? _ _ _ _ (fun next => (part (view state)).state? = some (view next)) _ _ same ended

theorem Projects.onException {cleanup : Procedure State Error Unit}
    {partCleanup : Procedure Part Error Unit} (body : Projects view invariant action part)
    (handler : Projects view invariant cleanup partCleanup) :
    Projects view invariant (onException action cleanup) (onException part partCleanup) := by
  intro state holds
  rw [wlp_onException]
  apply wlp_mono (body state holds)
  · rintro value after ⟨ran, kept⟩
    simp only [Procedure.onException, ran]
    exact ⟨trivial, kept⟩
  · rintro error middle ⟨ran, kept⟩
    simp only [Procedure.onException, ran]
    apply wlp_mono (handler middle kept)
    · rintro _ after ⟨cleaned, keptAfter⟩
      rw [cleaned]
      exact ⟨rfl, keptAfter⟩
    · rintro failure after ⟨cleaned, keptAfter⟩
      rw [cleaned]
      exact ⟨rfl, keptAfter⟩

theorem Projects.within {write : State → Part → State} (part : Procedure Part Error Value)
    (written : ∀ state after, view (write state after) = after)
    (kept : ∀ state after, invariant state → invariant (write state after)) :
    Projects view invariant (within view write part) part := by
  intro state holds
  rw [wlp_within]
  apply wlp_intro
  · intro value after ran
    rw [written]
    exact ⟨ran, kept state after holds⟩
  · intro error after ran
    rw [written]
    exact ⟨ran, kept state after holds⟩

end Procedure
