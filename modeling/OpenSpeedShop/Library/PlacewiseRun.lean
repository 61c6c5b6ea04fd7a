import OpenSpeedShop.Library.Fallible

/-!
Vectors whose places run side by side. A step that computes each place out of itself and an item, and
fails where one of them does, leaves in a place what it comes to when it runs alone.
-/

namespace PlacewiseRun

variable {Value Item : Type}

theorem mapM_zipIdx_iff {Next : Type} {body : Value → Nat → Option Next} :
    ∀ {values : List Value} {first : Nat} {after : List Next},
      (values.zipIdx first).mapM (fun value => body value.1 value.2) = some after ↔
        after.length = values.length ∧ ∀ i value, values[i]? = some value →
          ∃ next, body value (first + i) = some next ∧ after[i]? = some next := by
  intro values
  induction values with
  | nil =>
    intro first after
    simp [eq_comm]
  | cons value rest ih =>
    intro first after
    rw [List.zipIdx_cons, List.mapM_cons]
    constructor
    · intro ran
      obtain ⟨next, here, ran⟩ := Option.bind_eq_some_iff.mp ran
      obtain ⟨more, others, returned⟩ := Option.bind_eq_some_iff.mp ran
      obtain rfl := Option.some.inj returned
      obtain ⟨length, each⟩ := ih.mp others
      refine ⟨by rw [List.length_cons, List.length_cons, length], fun i found at_ => ?_⟩
      cases i with
      | zero =>
        obtain rfl := Option.some.inj at_
        exact ⟨next, here, rfl⟩
      | succ i =>
        have shift : first + 1 + i = first + (i + 1) := by omega
        rw [← shift]
        exact each i found at_
    · rintro ⟨length, each⟩
      obtain ⟨next, here, head⟩ := each 0 value rfl
      cases after with
      | nil => cases head
      | cons first' more =>
        obtain rfl := Option.some.inj head
        have others := (@ih (first + 1) more).mpr ⟨by simpa using length, fun i found at_ => by
            have shift : first + 1 + i = first + (i + 1) := by omega
            rw [shift]
            exact each (i + 1) found at_⟩
        have here' : body value first = some first' := here
        simp [here', others]

variable (step : Nat → Value → Item → Option Value)

def stepAll (values : List Value) (item : Item) : Option (List Value) :=
  values.zipIdx.mapM fun value => step value.2 value.1 item

theorem stepAll_iff {values after : List Value} {item : Item} : stepAll step values item = some after ↔
      after.length = values.length ∧ ∀ i value, values[i]? = some value →
        ∃ next, step i value item = some next ∧ after[i]? = some next := by
  have body := @mapM_zipIdx_iff _ _ (fun value i => step i value item) values 0 after
  simpa only [stepAll, Nat.zero_add] using body

theorem stepAll_exists {values : List Value} {item : Item}
    (each : ∀ i value, values[i]? = some value → ∃ next, step i value item = some next) :
    ∃ after, stepAll step values item = some after := by
  refine Fallible.mapM_isSome.mpr fun value member => ?_
  have at_ := List.mk_mem_zipIdx_iff_getElem?.mp member
  exact each value.2 value.1 at_

theorem run_iff {items : List Item} :
    ∀ {values final : List Value}, items.foldlM (stepAll step) values = some final ↔
      final.length = values.length ∧ ∀ i value, values[i]? = some value →
        ∃ last, items.foldlM (step i) value = some last ∧ final[i]? = some last := by
  induction items with
  | nil =>
    intro values final
    constructor
    · intro ran
      obtain rfl := Option.some.inj ran
      exact ⟨rfl, fun i value at_ => ⟨value, rfl, at_⟩⟩
    · rintro ⟨length, each⟩
      refine congrArg some (List.ext_getElem? fun i => ?_)
      cases at_ : values[i]? with
      | none => rw [List.getElem?_eq_none (by rw [length]; exact List.getElem?_eq_none_iff.mp at_)]
      | some value =>
        obtain ⟨last, ran, found⟩ := each i value at_
        rw [found, ← Option.some.inj ran]
  | cons item rest ih =>
    intro values final
    rw [List.foldlM_cons]
    constructor
    · intro ran
      obtain ⟨middle, stepped, ran⟩ := Option.bind_eq_some_iff.mp ran
      obtain ⟨length, each⟩ := (stepAll_iff step).mp stepped
      obtain ⟨lengthAfter, others⟩ := ih.mp ran
      refine ⟨lengthAfter.trans length, fun i value at_ => ?_⟩
      obtain ⟨next, here, found⟩ := each i value at_
      obtain ⟨last, more, kept⟩ := others i next found
      exact ⟨last, by rw [List.foldlM_cons, here]; exact more, kept⟩
    · rintro ⟨length, each⟩
      have split : ∀ i value, values[i]? = some value → ∃ next, step i value item = some next ∧
          ∃ last, rest.foldlM (step i) next = some last ∧ final[i]? = some last := by
        intro i value at_
        obtain ⟨last, ran, found⟩ := each i value at_
        rw [List.foldlM_cons] at ran
        obtain ⟨next, here, ran⟩ := Option.bind_eq_some_iff.mp ran
        exact ⟨next, here, last, ran, found⟩
      obtain ⟨middle, stepped⟩ := stepAll_exists step fun i value at_ =>
        (split i value at_).imp fun next found => found.1
      obtain ⟨lengthMiddle, here⟩ := (stepAll_iff step).mp stepped
      rw [stepped]
      refine ih.mpr ⟨length.trans lengthMiddle.symm, fun i next at_ => ?_⟩
      have inside : i < values.length := by
        rw [← lengthMiddle]
        exact (List.getElem?_eq_some_iff.mp at_).1
      have at_value := List.getElem?_eq_getElem inside
      obtain ⟨same, stepped, placed⟩ := here i values[i] at_value
      obtain ⟨other, again, more⟩ := split i values[i] at_value
      rw [at_, Option.some.injEq] at placed
      rw [stepped, Option.some.injEq] at again
      rw [placed, again]
      exact more

theorem run_exists {items : List Item} {values : List Value}
    (each : ∀ i value, values[i]? = some value → ∃ last, items.foldlM (step i) value = some last) :
    ∃ final, items.foldlM (stepAll step) values = some final := by
  obtain ⟨final, ran⟩ : ∃ final, (values.zipIdx.mapM fun value =>
      items.foldlM (step value.2) value.1) = some final := by
    refine Fallible.mapM_isSome.mpr fun value member => ?_
    exact each value.2 value.1 (List.mk_mem_zipIdx_iff_getElem?.mp member)
  have places := (@mapM_zipIdx_iff _ _ (fun value i => items.foldlM (step i) value) values 0 final).mp ran
  simp only [Nat.zero_add] at places
  exact ⟨final, (run_iff step).mpr places⟩

end PlacewiseRun
