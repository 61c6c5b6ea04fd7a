import OpenSpeedShop.Library.Fallible

/-!
Answers that are remembered by a key of the query. They agree with the direct
answers exactly when queries with one key have one answer.
-/

namespace Memo

open Fallible

variable {Query Key Value Error : Type} [DecidableEq Key]

abbrev Known (Key Value : Type) := Key → Option Value

def ask (key : Query → Key) (answer : Query → Except Error Value) (known : Known Key Value)
    (query : Query) : Except Error (Value × Known Key Value) :=
  match known (key query) with
  | some value => .ok (value, known)
  | none => do
      let value ← answer query
      return (value, Function.update known (key query) (some value))

def askAll (key : Query → Key) (answer : Query → Except Error Value) :
    List Query → Known Key Value → Except Error (List Value × Known Key Value)
  | [], known => .ok ([], known)
  | query :: rest, known => do
      let (value, known) ← ask key answer known query
      let (values, known) ← askAll key answer rest known
      return (value :: values, known)

def askBatches (key : Query → Key) (answer : Query → Except Error Value) :
    List (List Query) → Known Key Value → Except Error (List (List Value) × Known Key Value)
  | [], known => .ok ([], known)
  | batch :: rest, known => do
      let (values, known) ← askAll key answer batch known
      let (results, known) ← askBatches key answer rest known
      return (values :: results, known)

variable {key : Query → Key} {answer : Query → Except Error Value}

def Extends (before after : Known Key Value) : Prop :=
  ∀ place value, before place = some value → after place = some value

theorem ask_recorded {known next : Known Key Value} {query : Query} {value : Value}
    (asked : ask key answer known query = .ok (value, next)) :
    Extends known next ∧ next (key query) = some value := by
  rw [ask] at asked
  cases here : known (key query) with
  | some found =>
    simp only [here] at asked
    obtain ⟨rfl, rfl⟩ := Prod.mk.inj (Except.ok.inj asked)
    exact ⟨fun _ _ same => same, here⟩
  | none =>
    simp only [here] at asked
    obtain ⟨found, -, returned⟩ := bind_eq_ok.mp asked
    obtain ⟨rfl, rfl⟩ := Prod.mk.inj (Except.ok.inj returned)
    refine ⟨fun place value same => ?_, Function.update_self _ _ _⟩
    have apart : place ≠ key query := by
      rintro rfl
      cases here.symm.trans same
    rw [Function.update_of_ne apart]
    exact same

variable {queries : List Query}

theorem askAll_recorded : ∀ {known next : Known Key Value}
    {values : List Value}, askAll key answer queries known = .ok (values, next) →
    Extends known next ∧ List.Forall₂ (fun query value => next (key query) = some value) queries values := by
  induction queries with
  | nil =>
    intro known next values asked
    obtain ⟨rfl, rfl⟩ := Prod.mk.inj (Except.ok.inj asked)
    exact ⟨fun _ _ same => same, .nil⟩
  | cons query rest ih =>
    intro known next values asked
    obtain ⟨⟨value, middle⟩, first, others⟩ := bind_eq_ok.mp asked
    obtain ⟨⟨more, last⟩, remaining, returned⟩ := bind_eq_ok.mp others
    obtain ⟨rfl, rfl⟩ := Prod.mk.inj (Except.ok.inj returned)
    obtain ⟨kept, here⟩ := ask_recorded first
    obtain ⟨keptLater, recorded⟩ := ih remaining
    exact ⟨fun place value same => keptLater place value (kept place value same),
      .cons (keptLater _ _ here) recorded⟩

variable {batches : List (List Query)}

theorem askBatches_recorded : ∀ {known next : Known Key Value}
    {results : List (List Value)}, askBatches key answer batches known = .ok (results, next) →
    Extends known next ∧ List.Forall₂ (List.Forall₂ fun query value =>
      next (key query) = some value) batches results := by
  induction batches with
  | nil =>
    intro known next results asked
    obtain ⟨rfl, rfl⟩ := Prod.mk.inj (Except.ok.inj asked)
    exact ⟨fun _ _ same => same, .nil⟩
  | cons batch rest ih =>
    intro known next results asked
    obtain ⟨⟨values, middle⟩, first, others⟩ := bind_eq_ok.mp asked
    obtain ⟨⟨more, last⟩, remaining, returned⟩ := bind_eq_ok.mp others
    obtain ⟨rfl, rfl⟩ := Prod.mk.inj (Except.ok.inj returned)
    obtain ⟨kept, recorded⟩ := askAll_recorded first
    obtain ⟨keptLater, recordedLater⟩ := ih remaining
    exact ⟨fun place value same => keptLater place value (kept place value same),
      .cons (recorded.imp fun _ _ same => keptLater _ _ same) recordedLater⟩

def Agrees (key : Query → Key) (answer : Query → Except Error Value) (known : Known Key Value)
    (queries : List Query) : Prop :=
  ∀ query ∈ queries, ∀ value, known (key query) = some value → answer query = .ok value

def Consistent (key : Query → Key) (answer : Query → Except Error Value) (queries : List Query) : Prop :=
  ∀ first ∈ queries, ∀ second ∈ queries, key first = key second → answer first = answer second

theorem ask_agrees {known : Known Key Value} {query : Query} {value : Value}
    (agrees : Agrees key answer known (query :: queries))
    (consistent : Consistent key answer (query :: queries)) (direct : answer query = .ok value) :
    ∃ next, ask key answer known query = .ok (value, next) ∧ Agrees key answer next queries := by
  have later : Agrees key answer known queries := fun other member =>
    agrees other (List.mem_cons_of_mem query member)
  rw [ask]
  cases here : known (key query) with
  | some found =>
    have same := agrees query List.mem_cons_self found here
    obtain rfl := Except.ok.inj (direct.symm.trans same)
    exact ⟨known, rfl, later⟩
  | none =>
    refine ⟨Function.update known (key query) (some value), by simp only [direct]; rfl, ?_⟩
    intro other member found same
    by_cases shared : key other = key query
    · rw [shared, Function.update_self] at same
      obtain rfl := Option.some.inj same
      exact (consistent other (List.mem_cons_of_mem query member) query List.mem_cons_self shared).trans direct
    · rw [Function.update_of_ne shared] at same
      exact later other member found same

omit [DecidableEq Key] in
theorem Consistent.sublist {queries part : List Query} (consistent : Consistent key answer queries)
    (inside : ∀ query ∈ part, query ∈ queries) : Consistent key answer part :=
  fun first firstMember second secondMember =>
    consistent first (inside first firstMember) second (inside second secondMember)

theorem askAll_agrees : ∀ {later : List Query} {known : Known Key Value}
    {values : List Value}, Agrees key answer known (queries ++ later) →
    Consistent key answer (queries ++ later) → queries.mapM answer = .ok values →
    ∃ next, askAll key answer queries known = .ok (values, next) ∧ Agrees key answer next later := by
  induction queries with
  | nil =>
    intro later known values agrees _ direct
    obtain rfl := Except.ok.inj direct
    exact ⟨known, rfl, agrees⟩
  | cons query rest ih =>
    intro later known values agrees consistent direct
    rw [List.mapM_cons] at direct
    obtain ⟨value, first, others⟩ := bind_eq_ok.mp direct
    obtain ⟨more, remaining, returned⟩ := bind_eq_ok.mp others
    obtain rfl := Except.ok.inj returned
    obtain ⟨middle, asked, agreesMiddle⟩ := ask_agrees agrees consistent first
    obtain ⟨next, askedRest, agreesNext⟩ := ih agreesMiddle
      (consistent.sublist fun query member => List.mem_cons_of_mem _ member) remaining
    refine ⟨next, ?_, agreesNext⟩
    rw [askAll, asked, ok_bind]
    dsimp only
    rw [askedRest]
    rfl

theorem askBatches_agrees : ∀ {known : Known Key Value}
    {results : List (List Value)}, Agrees key answer known batches.flatten →
    Consistent key answer batches.flatten → (batches.mapM fun batch => batch.mapM answer) = .ok results →
    ∃ next, askBatches key answer batches known = .ok (results, next) := by
  induction batches with
  | nil =>
    intro known results _ _ direct
    obtain rfl := Except.ok.inj direct
    exact ⟨known, rfl⟩
  | cons batch rest ih =>
    intro known results agrees consistent direct
    rw [List.mapM_cons] at direct
    obtain ⟨values, first, others⟩ := bind_eq_ok.mp direct
    obtain ⟨more, remaining, returned⟩ := bind_eq_ok.mp others
    obtain rfl := Except.ok.inj returned
    rw [List.flatten_cons] at agrees consistent
    obtain ⟨middle, asked, agreesMiddle⟩ := askAll_agrees agrees consistent first
    obtain ⟨next, askedRest⟩ := ih agreesMiddle
      (consistent.sublist fun query member => List.mem_append_right _ member) remaining
    refine ⟨next, ?_⟩
    rw [askBatches, asked, ok_bind]
    dsimp only
    rw [askedRest]
    rfl

theorem exists_both {Item Result : Type} {first second : Item → Result → Prop}
    {items : List Item} {results : List Result} (left : List.Forall₂ first items results)
    (right : List.Forall₂ second items results) :
    ∀ item ∈ items, ∃ result, first item result ∧ second item result := by
  induction left with
  | nil => exact fun _ member => absurd member List.not_mem_nil
  | cons here _ ih =>
    cases right with
    | cons there later =>
      intro item member
      rcases List.mem_cons.mp member with rfl | inRest
      · exact ⟨_, here, there⟩
      · exact ih later item inRest

theorem askBatches_iff {results : List (List Value)}
    (direct : (batches.mapM fun batch => batch.mapM answer) = .ok results) :
    (∃ known, askBatches key answer batches (fun _ => none) = .ok (results, known)) ↔
      Consistent key answer batches.flatten := by
  constructor
  · rintro ⟨known, asked⟩
    have recorded := (askBatches_recorded asked).2
    have known_answer : ∀ query ∈ batches.flatten, ∃ value,
        known (key query) = some value ∧ answer query = .ok value := by
      intro query member
      obtain ⟨batch, inBatches, inBatch⟩ := List.mem_flatten.mp member
      obtain ⟨values, knownAll, answered⟩ :=
        exists_both recorded (mapM_eq_ok.mp direct) batch inBatches
      exact exists_both knownAll (mapM_eq_ok.mp answered) query inBatch
    intro first firstMember second secondMember same
    obtain ⟨value, knownFirst, answerFirst⟩ := known_answer first firstMember
    obtain ⟨other, knownSecond, answerSecond⟩ := known_answer second secondMember
    rw [same, knownSecond] at knownFirst
    rw [answerFirst, answerSecond, Option.some.inj knownFirst]
  · intro consistent
    exact askBatches_agrees (fun _ _ _ impossible => by cases impossible) consistent direct

end Memo
