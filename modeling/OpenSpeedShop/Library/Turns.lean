import OpenSpeedShop.Library.Fallible
import Mathlib.Data.List.Induction

/-!
Loops over a list that stop at the first item of a kind, and what the items of a
list do in their turn, after those before them.
-/

namespace Turns

variable {Item : Type}

def Reached (stops : Item → Prop) (items : List Item) (item : Item) : Prop :=
  ∃ earlier later, items = earlier ++ item :: later ∧ ∀ other ∈ earlier, ¬ stops other

theorem not_reached_nil {stops : Item → Prop} {item : Item} : ¬ Reached stops [] item := by
  rintro ⟨earlier, later, split, -⟩
  simp at split

theorem reached_cons {stops : Item → Prop} {first item : Item} {rest : List Item} :
    Reached stops (first :: rest) item ↔ item = first ∨ (¬ stops first ∧ Reached stops rest item) := by
  constructor
  · rintro ⟨earlier, later, split, passed⟩
    cases earlier with
    | nil =>
      rw [List.nil_append, List.cons.injEq] at split
      exact .inl split.1.symm
    | cons other earlier =>
      rw [List.cons_append, List.cons.injEq] at split
      obtain ⟨rfl, split⟩ := split
      exact .inr ⟨passed first (by simp), earlier, later, split,
        fun other member => passed other (List.mem_cons_of_mem _ member)⟩
  · rintro (rfl | ⟨passes, earlier, later, rfl, passed⟩)
    · exact ⟨[], rest, rfl, by simp⟩
    · refine ⟨first :: earlier, later, rfl, fun other member => ?_⟩
      rcases List.mem_cons.mp member with rfl | inEarlier
      · exact passes
      · exact passed other inEarlier

def InTurn (does : List Item → Item → Prop) (items : List Item) : Prop :=
  ∃ seen item later, items = seen ++ item :: later ∧ does seen item

theorem not_inTurn_nil {does : List Item → Item → Prop} : ¬ InTurn does [] := by
  rintro ⟨seen, item, later, split, -⟩
  simp at split

theorem inTurn_snoc {does : List Item → Item → Prop} {items : List Item} {last : Item} :
    InTurn does (items ++ [last]) ↔ InTurn does items ∨ does items last := by
  constructor
  · rintro ⟨seen, item, later, split, done⟩
    induction later using List.reverseRecOn with
    | nil =>
      obtain ⟨rfl, same⟩ := List.append_inj' split rfl
      obtain rfl : last = item := by simpa using same
      exact .inr done
    | append_singleton later other ih =>
      rw [← List.cons_append, ← List.append_assoc] at split
      obtain ⟨rfl, -⟩ := List.append_inj' split rfl
      exact .inl ⟨seen, item, later, rfl, done⟩
  · rintro (⟨seen, item, later, rfl, done⟩ | done)
    · exact ⟨seen, item, later ++ [last], by simp, done⟩
    · exact ⟨items, last, [], rfl, done⟩

theorem foldlM_history {State Error : Type} {step : State → Item → Except Error State}
    (Relates : List Item → State → Prop)
    (preserved : ∀ seen state item next, Relates seen state → step state item = .ok next →
      Relates (seen ++ [item]) next) {items : List Item} :
    ∀ {seen : List Item} {start final : State}, Relates seen start →
      items.foldlM step start = .ok final → Relates (seen ++ items) final := by
  induction items with
  | nil =>
    intro seen start final initial ran
    obtain rfl : start = final := Except.ok.inj ran
    simpa using initial
  | cons item rest ih =>
    intro seen start final initial ran
    rw [List.foldlM_cons] at ran
    obtain ⟨middle, stepped, others⟩ := Fallible.bind_eq_ok.mp ran
    have whole := ih (preserved seen start item middle initial stepped) others
    simpa using whole

end Turns
