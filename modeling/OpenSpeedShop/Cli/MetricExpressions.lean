import OpenSpeedShop.Cli.MetricExpressionsCore
import OpenSpeedShop.Library.Fallible

/-!
The instructions made of metric expressions leave the values of the expressions in the rows, as
long as nothing accumulates and the last of the temps is one that `Find_Max_Temp` counts.
-/

namespace OpenSpeedShop.MetricExpressions

open Bool (false_eq_true and_eq_true or_eq_true)
open List (length_append mem_append append_nil length_cons length_pos_iff)
open ViewInstruction (ofExpression constant setsConst)

variable {Number Value : Type} (arithmetic : Arithmetic Number Value) (view : View Value)

theorem ParseRange.induction {tree : ParseRange Number → Prop} {trees : List (ParseRange Number) → Prop}
    (range : ∀ leaf, tree (.range leaf))
    (expression : ∀ op operands, trees operands → tree (.expression op operands))
    (nil : trees []) (cons : ∀ pr rest, tree pr → trees rest → trees (pr :: rest)) :
    (∀ pr, tree pr) ∧ ∀ prs, trees prs := by
  have each : ∀ pr, tree pr := fun pr =>
    ParseRange.rec (motive_1 := tree) (motive_2 := trees) range expression nil cons pr
  refine ⟨each, fun prs => ?_⟩
  induction prs with
  | nil => exact nil
  | cons pr rest ih => exact cons pr rest (each pr) ih

def rejects : ExpressionOperation → Bool
  | .error | .const | .header => true
  | _ => false

mutual

def available : ParseRange Number → Bool
  | .range leaf => match leaf.startRange with
      | .string _ => 0 ≤ view.metricTemp leaf.metricName
      | _ => true
  | .expression op operands => !rejects op && allAvailable operands

def allAvailable : List (ParseRange Number) → Bool
  | [] => true
  | pr :: rest => available pr && allAvailable rest

end

mutual

def accumulates : ParseRange Number → Bool
  | .range _ => false
  | .expression op operands =>
    !rejects op && (canAccumulate op && allAvailable view operands || anyAccumulates operands)

def anyAccumulates : List (ParseRange Number) → Bool
  | [] => false
  | pr :: rest => accumulates pr || anyAccumulates rest

end

/-- Whether `Find_Max_Temp` counts a temp: the result of an operator or of an accepted
column, not that of another constant. -/
inductive TempKind
  | counted | uncounted
deriving DecidableEq

mutual

def lastTemp : ParseRange Number → Option TempKind
  | .range leaf => match leaf.startRange with
      | .string _ => none
      | _ => some .uncounted
  | .expression op operands =>
    if rejects op then none
    else if allAvailable view operands then some .counted else lastOperandTemp operands

def lastOperandTemp : List (ParseRange Number) → Option TempKind
  | [] => none
  | pr :: rest => (lastOperandTemp rest).or (lastTemp pr)

end

def columnTemp (mi : ParseRange Number) : Option TempKind :=
  let pr := (columnExpression mi).2
  if available view pr then (lastTemp view pr).map fun _ => .counted else lastTemp view pr

def lastColumnTemp : List (ParseRange Number) → Option TempKind
  | [] => none
  | mi :: rest => (lastColumnTemp rest).or (columnTemp view mi)

mutual

def wellFormed : ParseRange Number → Bool
  | .range _ => true
  | .expression op operands => operands.length ≤ 3 &&
      (!canAccumulate op || operands.length = 1) && allWellFormed operands

def allWellFormed : List (ParseRange Number) → Bool
  | [] => true
  | pr :: rest => wellFormed pr && allWellFormed rest

end

def leafCode (last : Int) (leaf : ParseRangeValue Number) : List (ViewInstruction Value) × Int :=
  match leaf.startRange with
  | .number num => ([.constant .setConstInt (last + 1) (arithmetic.ofInt num)], last + 1)
  | .double val => ([.constant .setConstFloat (last + 1) (arithmetic.ofFloat val)], last + 1)
  | .string _ => ([], view.metricTemp leaf.metricName)

mutual

def emit (last : Int) : ParseRange Number → List (ViewInstruction Value) × Int
  | .range leaf => leafCode arithmetic view last leaf
  | .expression op operands =>
    let code := (emitOperands last operands).1
    let ops := (emitOperands last operands).2
    if rejects op then ([], -1)
    else if ops.any (· < 0) then (code, -1)
    else (code ++ [.ofExpression op (last + code.length + 1) (ops[0]?.getD (-1))
      (ops[1]?.getD (-1)) (ops[2]?.getD (-1))], last + code.length + 1)

def emitOperands (last : Int) : List (ParseRange Number) → List (ViewInstruction Value) × List Int
  | [] => ([], [])
  | pr :: rest =>
    let first := emit last pr
    let others := emitOperands (last + first.1.length) rest
    (first.1 ++ others.1, first.2 :: others.2)

end

structure Emitted (g : Generation Value) (code : List (ViewInstruction Value))
    (after : Generation Value) : Prop where
  iv : after.iv = g.iv ++ code
  lastUsedTemp : after.lastUsedTemp = g.lastUsedTemp + code.length
  lastColumn : after.lastColumn = g.lastColumn

theorem Emitted.refl (g : Generation Value) : Emitted g [] g :=
  ⟨(append_nil _).symm, by simp, rfl⟩

variable {code : List (ViewInstruction Value)}

theorem Emitted.markSoftError {g after : Generation Value}
    (made : Emitted g code after) (message : String) : Emitted g code (after.markSoftError message) :=
  ⟨made.iv, made.lastUsedTemp, made.lastColumn⟩

theorem Emitted.newTemp {g after : Generation Value}
    (made : Emitted g code after) (vp : ViewInstruction Value) :
    Emitted g (code ++ [vp]) (after.newTemp.pushBack vp) := by
  refine ⟨?_, ?_, made.lastColumn⟩
  · simp [Generation.pushBack, Generation.newTemp, made.iv]
  · simp [Generation.pushBack, Generation.newTemp, made.lastUsedTemp]
    omega

variable {first second : List (ViewInstruction Value)}

variable {g middle after : Generation Value}

theorem Emitted.trans (made : Emitted g first middle)
    (more : Emitted middle second after) : Emitted g (first ++ second) after := by
  refine ⟨by rw [more.iv, made.iv, List.append_assoc], ?_, more.lastColumn.trans made.lastColumn⟩
  rw [more.lastUsedTemp, made.lastUsedTemp, length_append]
  omega

theorem evaluateRange_emits (leaf : ParseRangeValue Number) (g : Generation Value) :
    (evaluateRange arithmetic view leaf g).1 = (leafCode arithmetic view g.lastUsedTemp leaf).2 ∧
      Emitted g (leafCode arithmetic view g.lastUsedTemp leaf).1 (evaluateRange arithmetic view leaf g).2 := by
  unfold evaluateRange leafCode
  cases leaf.startRange with
  | number num => exact ⟨rfl, (Emitted.refl g).newTemp _⟩
  | double val => exact ⟨rfl, (Emitted.refl g).newTemp _⟩
  | string name =>
    dsimp only
    split
    · exact ⟨rfl, (Emitted.refl g).markSoftError _⟩
    · exact ⟨rfl, Emitted.refl g⟩

variable {op : ExpressionOperation}

theorem evaluateParseExpression_rejects (rejected : rejects op = true)
    (operands : List (ParseRange Number)) (g : Generation Value) :
    (evaluateParseExpression arithmetic view (.expression op operands) g).1 = -1 ∧
      Emitted g [] (evaluateParseExpression arithmetic view (.expression op operands) g).2 := by
  cases op <;> cases rejected
  case error => exact ⟨by rw [evaluateParseExpression], by
    rw [evaluateParseExpression]; exact Emitted.refl g⟩
  case const => exact ⟨by rw [evaluateParseExpression], by
    rw [evaluateParseExpression]; exact Emitted.refl g⟩
  case header => exact ⟨by rw [evaluateParseExpression], by
    rw [evaluateParseExpression]; exact (Emitted.refl g).markSoftError _⟩

theorem evaluateParseExpression_operator (known : rejects op = false)
    (operands : List (ParseRange Number)) (g : Generation Value) :
    evaluateParseExpression arithmetic view (.expression op operands) g =
      let ops := (evaluateOperands arithmetic view operands g).1
      let after := (evaluateOperands arithmetic view operands g).2
      if ops.any (· < 0) then (-1, after)
      else (after.lastUsedTemp + 1, after.newTemp.pushBack
        (.ofExpression op (after.lastUsedTemp + 1) (ops[0]?.getD (-1)) (ops[1]?.getD (-1))
          (ops[2]?.getD (-1)))) := by
  cases op <;> cases known <;> (rw [evaluateParseExpression] <;> simp)

theorem evaluate_emits : (∀ (pr : ParseRange Number) (g : Generation Value),
      (evaluateParseExpression arithmetic view pr g).1 = (emit arithmetic view g.lastUsedTemp pr).2 ∧
      Emitted g (emit arithmetic view g.lastUsedTemp pr).1 (evaluateParseExpression arithmetic view pr g).2) ∧
    ∀ (prs : List (ParseRange Number)) (g : Generation Value),
      (evaluateOperands arithmetic view prs g).1 = (emitOperands arithmetic view g.lastUsedTemp prs).2 ∧
      Emitted g (emitOperands arithmetic view g.lastUsedTemp prs).1
        (evaluateOperands arithmetic view prs g).2 := by
  refine ParseRange.induction ?range ?expression ?nil ?cons
  case range =>
    intro leaf g
    rw [evaluateParseExpression, emit]
    exact evaluateRange_emits arithmetic view leaf g
  case expression =>
    intro op operands ih g
    obtain ⟨ops, made⟩ := ih g
    cases known : rejects op with
    | true =>
      have rejected := evaluateParseExpression_rejects arithmetic view known operands g
      rw [emit]
      simpa only [known, if_true] using rejected
    | false =>
      rw [evaluateParseExpression_operator arithmetic view known, emit]
      simp only [known, false_eq_true, if_false, ops]
      split
      · exact ⟨rfl, made⟩
      · rw [made.lastUsedTemp]
        exact ⟨rfl, made.newTemp _⟩
  case nil =>
    intro g
    rw [evaluateOperands, emitOperands]
    exact ⟨rfl, Emitted.refl g⟩
  case cons =>
    intro pr rest ihFirst ihRest g
    obtain ⟨result, made⟩ := ihFirst g
    obtain ⟨results, more⟩ := ihRest (evaluateParseExpression arithmetic view pr g).2
    rw [made.lastUsedTemp] at results more
    rw [evaluateOperands, emitOperands]
    exact ⟨congrArg₂ List.cons result results, made.trans more⟩

theorem emit_accepted : (∀ (pr : ParseRange Number) (last : Int), -1 ≤ last →
      (available view pr = true ↔ 0 ≤ (emit arithmetic view last pr).2)) ∧
    ∀ (prs : List (ParseRange Number)) (last : Int), -1 ≤ last →
      (allAvailable view prs = true ↔ (emitOperands arithmetic view last prs).2.any (· < 0) = false) := by
  refine ParseRange.induction ?range ?expression ?nil ?cons
  case range =>
    intro leaf last lower
    rw [available, emit, leafCode]
    cases leaf.startRange with
    | number num => simpa using (by omega : 0 ≤ last + 1)
    | double val => simpa using (by omega : 0 ≤ last + 1)
    | string name => simp
  case expression =>
    intro op operands ih last lower
    rw [available, emit]
    cases rejected : rejects op with
    | true => simp
    | false =>
      simp only [Bool.not_false, Bool.true_and, false_eq_true, if_false, ih last lower]
      split
      · rename_i error
        simp [error]
      · rename_i accepted
        simp only [Bool.not_eq_true] at accepted
        simp only [accepted, true_iff]
        omega
  case nil => simp [allAvailable, emitOperands]
  case cons =>
    intro pr rest ihFirst ihRest last lower
    rw [allAvailable, emitOperands, List.any_cons, and_eq_true, Bool.or_eq_false_iff,
      ihFirst last lower, ihRest (last + (emit arithmetic view last pr).1.length) (by omega)]
    simp

def Numbered : Int → List (ViewInstruction Value) → Prop
  | _, [] => True
  | last, vp :: rest =>
    vp.tmpResult = last + 1 ∧ (vp.opCode = .expression ∨ vp.setsConst = true) ∧ Numbered (last + 1) rest

theorem numbered_append : ∀ {last : Int}, Numbered last (first ++ second) ↔
      Numbered last first ∧ Numbered (last + first.length) second := by
  induction first with
  | nil => simp [Numbered]
  | cons vp rest ih =>
    intro last
    have shift : last + 1 + (rest.length : Int) = last + ((vp :: rest).length : Int) := by
      rw [length_cons]
      omega
    rw [List.cons_append, Numbered, Numbered, ih, shift]
    simp only [and_assoc]

theorem Numbered.between : ∀ {last : Int}, Numbered last code → ∀ vp ∈ code,
      last < vp.tmpResult ∧ vp.tmpResult ≤ last + code.length := by
  induction code with
  | nil => simp
  | cons head rest ih =>
    intro last numbered vp member
    obtain ⟨number, _, others⟩ := numbered
    rw [length_cons]
    cases member with
    | head => omega
    | tail _ member =>
      have bounds := ih others vp member
      omega

theorem Numbered.kind :
    ∀ {last : Int}, Numbered last code → ∀ vp ∈ code, vp.opCode = .expression ∨ vp.setsConst = true := by
  induction code with
  | nil => simp
  | cons head rest ih =>
    intro last numbered vp member
    obtain ⟨_, kind, others⟩ := numbered
    cases member with
    | head => exact kind
    | tail _ member => exact ih others vp member

theorem emit_numbered :
    (∀ (pr : ParseRange Number) (last : Int), Numbered last (emit arithmetic view last pr).1) ∧
    ∀ (prs : List (ParseRange Number)) (last : Int),
      Numbered last (emitOperands arithmetic view last prs).1 := by
  refine ParseRange.induction ?range ?expression ?nil ?cons
  case range =>
    intro leaf last
    rw [emit, leafCode]
    cases leaf.startRange with
    | number num => exact ⟨rfl, .inr rfl, trivial⟩
    | double val => exact ⟨rfl, .inr rfl, trivial⟩
    | string name => trivial
  case expression =>
    intro op operands ih last
    rw [emit]
    split
    · trivial
    · split
      · exact ih last
      · exact numbered_append.mpr ⟨ih last, rfl, .inl rfl, trivial⟩
  case nil => exact fun last => trivial
  case cons =>
    intro pr rest ihFirst ihRest last
    rw [emitOperands]
    exact numbered_append.mpr ⟨ihFirst last, ihRest _⟩

def ViewInstruction.operands (vp : ViewInstruction Value) : List Int :=
  [vp.tmpIndex1, vp.tmpIndex2, vp.tmpIndex3].filter (0 ≤ ·)

def View.IsMetricTemp (temp : Int) : Prop :=
  ∃ metric ∈ view.metricMap, metric.2 = temp

def ReadsDefined : (Int → Prop) → List (ViewInstruction Value) → Prop
  | _, [] => True
  | known, vp :: rest => (∀ tmp ∈ vp.operands, known tmp) ∧
      ReadsDefined (fun tmp => known tmp ∨ tmp = vp.tmpResult) rest

theorem ReadsDefined.mono :
    ∀ {known more : Int → Prop}, (∀ tmp, known tmp → more tmp) → ReadsDefined known code →
      ReadsDefined more code := by
  induction code with
  | nil => exact fun _ _ => trivial
  | cons vp rest ih =>
    intro known more wider reads
    refine ⟨fun tmp member => wider tmp (reads.1 tmp member), ih ?_ reads.2⟩
    exact fun tmp before => before.imp_left (wider tmp)

theorem readsDefined_append : ∀ {known : Int → Prop}, ReadsDefined known (first ++ second) ↔
      ReadsDefined known first ∧
        ReadsDefined (fun tmp => known tmp ∨ ∃ vp ∈ first, tmp = vp.tmpResult) second := by
  induction first with
  | nil => simp [ReadsDefined]
  | cons vp rest ih =>
    intro known
    have known_iff : (fun tmp => (known tmp ∨ tmp = vp.tmpResult) ∨ ∃ other ∈ rest, tmp = other.tmpResult) =
        fun tmp => known tmp ∨ ∃ other ∈ vp :: rest, tmp = other.tmpResult := by
      funext tmp
      simp only [List.mem_cons, exists_eq_or_imp, or_assoc]
    rw [List.cons_append, ReadsDefined, ReadsDefined, ih, known_iff, and_assoc]

theorem metricTemp_known {name : String} (found : 0 ≤ view.metricTemp name) :
    view.IsMetricTemp (view.metricTemp name) := by
  have looked : ∀ key : String, 0 ≤ (view.metricMap.lookup key).getD (-1) →
      view.IsMetricTemp ((view.metricMap.lookup key).getD (-1)) := by
    intro key known
    cases look : view.metricMap.lookup key with
    | none => simp [look] at known
    | some temp =>
      obtain ⟨before, after, split, _⟩ := List.lookup_eq_some_iff.mp look
      exact ⟨(key, temp), by rw [split]; simp, rfl⟩
  unfold View.metricTemp at found ⊢
  dsimp only at found ⊢
  split
  · rename_i missing
    rw [if_pos missing] at found
    exact looked _ found
  · rename_i present
    rw [if_neg present] at found
    exact looked _ found

def Known (code : List (ViewInstruction Value)) (tmp : Int) : Prop :=
  view.IsMetricTemp tmp ∨ ∃ vp ∈ code, tmp = vp.tmpResult

theorem operands_ofExpression {result : Int} {ops : List Int}
    {known : Int → Prop} (each : ∀ tmp ∈ ops, 0 ≤ tmp → known tmp) :
    ∀ tmp ∈ (ofExpression op result (ops[0]?.getD (-1)) (ops[1]?.getD (-1))
      (ops[2]?.getD (-1)) : ViewInstruction Value).operands, known tmp := by
  have place : ∀ i : Nat, 0 ≤ ops[i]?.getD (-1) → known (ops[i]?.getD (-1)) := by
    intro i present
    cases found : ops[i]? with
    | none => simp [found] at present
    | some tmp =>
      rw [found] at present
      exact each tmp (List.mem_of_getElem? found) present
  intro tmp member
  obtain ⟨among, present⟩ := List.mem_filter.mp member
  simp only [ofExpression, List.mem_cons, List.not_mem_nil, or_false] at among
  obtain rfl | rfl | rfl := among
  · exact place 0 (by simpa using present)
  · exact place 1 (by simpa using present)
  · exact place 2 (by simpa using present)

theorem emit_reads : (∀ (pr : ParseRange Number) (last : Int),
      ReadsDefined view.IsMetricTemp (emit arithmetic view last pr).1 ∧
      (0 ≤ (emit arithmetic view last pr).2 →
        Known view (emit arithmetic view last pr).1 (emit arithmetic view last pr).2)) ∧
    ∀ (prs : List (ParseRange Number)) (last : Int),
      ReadsDefined view.IsMetricTemp (emitOperands arithmetic view last prs).1 ∧
      ∀ tmp ∈ (emitOperands arithmetic view last prs).2, 0 ≤ tmp →
        Known view (emitOperands arithmetic view last prs).1 tmp := by
  refine ParseRange.induction ?range ?expression ?nil ?cons
  case range =>
    intro leaf last
    rw [emit, leafCode]
    cases leaf.startRange with
    | number num => exact ⟨⟨by simp [ViewInstruction.operands, constant], trivial⟩,
        fun _ => .inr ⟨_, List.mem_singleton_self _, rfl⟩⟩
    | double val => exact ⟨⟨by simp [ViewInstruction.operands, constant], trivial⟩,
        fun _ => .inr ⟨_, List.mem_singleton_self _, rfl⟩⟩
    | string name => exact ⟨trivial, fun found => .inl (metricTemp_known view found)⟩
  case expression =>
    intro op operands ih last
    obtain ⟨reads, results⟩ := ih last
    rw [emit]
    split
    · exact ⟨trivial, fun negative => absurd negative (by simp)⟩
    · split
      · exact ⟨reads, fun negative => absurd negative (by simp)⟩
      · refine ⟨readsDefined_append.mpr ⟨reads, operands_ofExpression results, trivial⟩, ?_⟩
        exact fun _ => .inr ⟨_, List.mem_append_right _ (List.mem_singleton_self _), rfl⟩
  case nil => exact fun last => ⟨trivial, by simp [emitOperands]⟩
  case cons =>
    intro pr rest ihFirst ihRest last
    obtain ⟨reads, result⟩ := ihFirst last
    obtain ⟨readsMore, results⟩ := ihRest (last + (emit arithmetic view last pr).1.length)
    rw [emitOperands]
    refine ⟨readsDefined_append.mpr ⟨reads, readsMore.mono fun _ => .inl⟩, ?_⟩
    intro tmp member present
    cases member with
    | head =>
      refine (result present).imp_right fun ⟨vp, emitted, same⟩ => ?_
      exact ⟨vp, List.mem_append_left _ emitted, same⟩
    | tail _ member =>
      refine (results tmp member present).imp_right fun ⟨vp, emitted, same⟩ => ?_
      exact ⟨vp, List.mem_append_right _ emitted, same⟩

variable {last : Int}

theorem Known.upper {tmp : Int} (known : Known view code tmp) (numbered : Numbered last code)
    (lower : view.lastPredefinedTemp ≤ last) : tmp ≤ last + code.length := by
  obtain ⟨metric, member, rfl⟩ | ⟨vp, emitted, rfl⟩ := known
  · have bounds := view.metric_temps metric member
    omega
  · exact (numbered.between vp emitted).2

theorem emit_accumulates : (∀ (pr : ParseRange Number) (last : Int), -1 ≤ last → (accumulates view pr = true ↔
        ∃ vp ∈ (emit arithmetic view last pr).1, canAccumulate vp.expressionOp = true)) ∧
    ∀ (prs : List (ParseRange Number)) (last : Int), -1 ≤ last → (anyAccumulates view prs = true ↔
        ∃ vp ∈ (emitOperands arithmetic view last prs).1, canAccumulate vp.expressionOp = true) := by
  refine ParseRange.induction ?range ?expression ?nil ?cons
  case range =>
    intro leaf last lower
    rw [accumulates, emit, leafCode]
    cases leaf.startRange <;> simp [constant, canAccumulate]
  case expression =>
    intro op operands ih last lower
    have accepted := (emit_accepted arithmetic view).2 operands last lower
    rw [accumulates, emit]
    cases rejected : rejects op with
    | true => simp
    | false =>
      simp only [Bool.not_false, Bool.true_and, false_eq_true, if_false, or_eq_true,
        and_eq_true, ih last lower, accepted]
      split
      · rename_i error
        simp [error]
      · rename_i fine
        simp only [Bool.not_eq_true] at fine
        simp [fine, ofExpression, or_and_right, exists_or, or_comm]
  case nil => simp [anyAccumulates, emitOperands]
  case cons =>
    intro pr rest ihFirst ihRest last lower
    rw [anyAccumulates, emitOperands, or_eq_true, ihFirst last lower,
      ihRest (last + (emit arithmetic view last pr).1.length) (by omega)]
    simp only [mem_append, or_and_right, exists_or]

theorem emit_third : (∀ (pr : ParseRange Number) (last : Int), wellFormed pr = true →
      ∀ vp ∈ (emit arithmetic view last pr).1, canAccumulate vp.expressionOp = true →
        vp.opCode = .expression ∧ vp.tmpIndex3 = -1) ∧
    ∀ (prs : List (ParseRange Number)) (last : Int), allWellFormed prs = true →
      (emitOperands arithmetic view last prs).2.length = prs.length ∧
      ∀ vp ∈ (emitOperands arithmetic view last prs).1, canAccumulate vp.expressionOp = true →
        vp.opCode = .expression ∧ vp.tmpIndex3 = -1 := by
  refine ParseRange.induction ?range ?expression ?nil ?cons
  case range =>
    intro leaf last formed
    rw [emit, leafCode]
    cases leaf.startRange <;> simp [constant, canAccumulate]
  case expression =>
    intro op operands ih last formed
    simp only [wellFormed, and_eq_true, or_eq_true, Bool.not_eq_eq_eq_not,
      Bool.not_true, decide_eq_true_eq] at formed
    obtain ⟨⟨short, single⟩, formed⟩ := formed
    obtain ⟨count, others⟩ := ih last formed
    rw [emit]
    split
    · simp
    · split
      · exact others
      · intro vp member accumulating
        obtain inside | made := mem_append.mp member
        · exact others vp inside accumulating
        · obtain rfl := List.mem_singleton.mp made
          refine ⟨rfl, ?_⟩
          have one : operands.length = 1 := by
            rcases single with plain | one
            · rw [show canAccumulate op = true from accumulating] at plain
              cases plain
            · exact one
          have missing : (emitOperands arithmetic view last operands).2[2]? = none :=
            List.getElem?_eq_none (by omega)
          simp [ofExpression, missing]
  case nil => simp [emitOperands]
  case cons =>
    intro pr rest ihFirst ihRest last formed
    rw [allWellFormed, and_eq_true] at formed
    obtain ⟨count, others⟩ := ihRest (last + (emit arithmetic view last pr).1.length) formed.2
    rw [emitOperands]
    refine ⟨by rw [length_cons, length_cons, count], ?_⟩
    intro vp member
    obtain first | other := mem_append.mp member
    · exact ihFirst last formed.1 vp first
    · exact others vp other

theorem findMaxTemp_from (iv : List (ViewInstruction Value)) : ∀ start : Int, -1 ≤ start →
    iv.foldl (fun maxTemp vp => max maxTemp vp.maxTemp) start = max start (findMaxTemp iv) := by
  unfold findMaxTemp
  induction iv with
  | nil =>
    intro start lower
    simp only [List.foldl_nil]
    omega
  | cons vp rest ih =>
    intro start lower
    rw [List.foldl_cons, List.foldl_cons, ih _ (by omega), ih (max (-1) vp.maxTemp) (by omega)]
    omega

theorem findMaxTemp_nil : findMaxTemp ([] : List (ViewInstruction Value)) = -1 := rfl

theorem findMaxTemp_lower (iv : List (ViewInstruction Value)) : -1 ≤ findMaxTemp iv := by
  have start := findMaxTemp_from iv (-1) (by omega)
  have same : findMaxTemp iv = max (-1) (findMaxTemp iv) := start
  omega

theorem findMaxTemp_append (first second : List (ViewInstruction Value)) :
    findMaxTemp (first ++ second) = max (findMaxTemp first) (findMaxTemp second) := by
  have whole : findMaxTemp (first ++ second) = second.foldl
      (fun maxTemp vp => max maxTemp vp.maxTemp) (findMaxTemp first) := by
    rw [findMaxTemp, List.foldl_append]
    rfl
  rw [whole, findMaxTemp_from second _ (findMaxTemp_lower first)]

theorem findMaxTemp_singleton (vp : ViewInstruction Value) : findMaxTemp [vp] = max (-1) vp.maxTemp := rfl

variable {vp : ViewInstruction Value} {iv : List (ViewInstruction Value)}

theorem maxTemp_le_findMaxTemp (member : vp ∈ iv) : vp.maxTemp ≤ findMaxTemp iv := by
  obtain ⟨before, after, rfl⟩ := List.append_of_mem member
  have cut : before ++ vp :: after = before ++ ([vp] ++ after) := rfl
  rw [cut, findMaxTemp_append, findMaxTemp_append, findMaxTemp_singleton]
  omega

theorem findMaxTemp_le {bound : Int} (lower : -1 ≤ bound)
    (each : ∀ vp ∈ iv, vp.maxTemp ≤ bound) : findMaxTemp iv ≤ bound := by
  induction iv with
  | nil => exact lower
  | cons vp rest ih =>
    have first := each vp List.mem_cons_self
    have others := ih fun other member => each other (List.mem_cons_of_mem _ member)
    rw [← List.singleton_append, findMaxTemp_append, findMaxTemp_singleton]
    omega

theorem setsConst_not_counted (sets : vp.setsConst = true) : vp.maxTemp = -1 := by
  simp only [setsConst, decide_eq_true_eq] at sets
  unfold ViewInstruction.maxTemp
  obtain same | same | same := sets <;> rw [same]

theorem maxTemp_expression (operator : vp.opCode = .expression) : vp.maxTemp = vp.tmpResult := by
  unfold ViewInstruction.maxTemp
  rw [operator]

theorem Numbered.findMaxTemp_le (numbered : Numbered last code) (lower : -1 ≤ last) :
    findMaxTemp code ≤ last + code.length := by
  refine MetricExpressions.findMaxTemp_le (by omega) fun vp member => ?_
  have bounds := numbered.between vp member
  obtain operator | sets := numbered.kind vp member
  · rw [maxTemp_expression operator]
    exact bounds.2
  · rw [setsConst_not_counted sets]
    omega

structure Counts (last : Int) (code : List (ViewInstruction Value)) (kind : Option TempKind) : Prop where
  nothing : kind = none → code = []
  uncounted : kind = some .uncounted → code ≠ [] ∧ findMaxTemp code < last + code.length
  counted : kind = some .counted → code ≠ [] ∧ findMaxTemp code = last + code.length

theorem Counts.empty (last : Int) : Counts last ([] : List (ViewInstruction Value)) none :=
  ⟨fun _ => rfl, nofun, nofun⟩

variable {kind more : Option TempKind}

theorem Counts.append (counts : Counts last first kind)
    (others : Counts (last + first.length) second more) (numbered : Numbered last first)
    (lower : -1 ≤ last) : Counts last (first ++ second) (more.or kind) := by
  have below := numbered.findMaxTemp_le lower
  cases more with
  | none =>
    rw [others.nothing rfl, append_nil]
    exact counts
  | some which =>
    have size : last + ((first ++ second).length : Int) = last + first.length + second.length := by
      rw [length_append]
      omega
    refine ⟨nofun, fun same => ?_, fun same => ?_⟩
    · obtain ⟨some_, smaller⟩ := others.uncounted same
      have positive := length_pos_iff.mpr some_
      rw [size, findMaxTemp_append]
      exact ⟨by simp [some_], by omega⟩
    · obtain ⟨some_, equal⟩ := others.counted same
      have positive := length_pos_iff.mpr some_
      rw [size, findMaxTemp_append]
      exact ⟨by simp [some_], by omega⟩

theorem emit_counts : (∀ (pr : ParseRange Number) (last : Int), -1 ≤ last →
      Counts last (emit arithmetic view last pr).1 (lastTemp view pr)) ∧
    ∀ (prs : List (ParseRange Number)) (last : Int), -1 ≤ last →
      Counts last (emitOperands arithmetic view last prs).1 (lastOperandTemp view prs) := by
  refine ParseRange.induction ?range ?expression ?nil ?cons
  case range =>
    intro leaf last lower
    have uncounted : ∀ vp : ViewInstruction Value, vp.setsConst = true →
        Counts last [vp] (some .uncounted) := by
      intro vp sets
      refine ⟨nofun, fun _ => ⟨by simp, ?_⟩, nofun⟩
      rw [findMaxTemp_singleton, setsConst_not_counted sets, List.length_singleton]
      omega
    rw [emit, leafCode, lastTemp]
    cases leaf.startRange with
    | number num => exact uncounted _ rfl
    | double val => exact uncounted _ rfl
    | string name => exact Counts.empty last
  case expression =>
    intro op operands ih last lower
    have accepted := (emit_accepted arithmetic view).2 operands last lower
    rw [emit, lastTemp]
    cases rejected : rejects op with
    | true => exact Counts.empty last
    | false =>
      simp only [false_eq_true, if_false]
      cases all : allAvailable view operands with
      | false =>
        have error : (emitOperands arithmetic view last operands).2.any (· < 0) = true := by
          rw [all, false_eq_true, false_iff, Bool.not_eq_false] at accepted
          exact accepted
        rw [if_pos error, if_neg (by simp)]
        exact ih last lower
      | true =>
        rw [accepted.mp all, if_neg (by simp), if_pos rfl]
        have numbered := (emit_numbered arithmetic view).2 operands last
        have below := numbered.findMaxTemp_le lower
        refine ⟨nofun, nofun, fun _ => ⟨by simp, ?_⟩⟩
        rw [findMaxTemp_append, findMaxTemp_singleton, length_append]
        simp only [ofExpression, ViewInstruction.maxTemp, List.length_singleton]
        omega
  case nil => exact fun last _ => Counts.empty last
  case cons =>
    intro pr rest ihFirst ihRest last lower
    rw [emitOperands, lastOperandTemp]
    exact (ihFirst last lower).append (ihRest _ (by omega)) ((emit_numbered arithmetic view).1 pr last) lower

theorem emit_result (pr : ParseRange Number) (lower : -1 ≤ last) (accepted : available view pr = true) :
    (lastTemp view pr = none ∧ (emit arithmetic view last pr).2 ≤ view.lastPredefinedTemp) ∨
      (lastTemp view pr ≠ none ∧ (emit arithmetic view last pr).2 =
        last + (emit arithmetic view last pr).1.length) := by
  cases pr with
  | range leaf =>
    rw [available] at accepted
    rw [emit, leafCode, lastTemp]
    cases kind : leaf.startRange with
    | number num => exact .inr ⟨by simp, rfl⟩
    | double val => exact .inr ⟨by simp, rfl⟩
    | string name =>
      rw [kind] at accepted
      obtain ⟨metric, member, same⟩ := metricTemp_known view (of_decide_eq_true accepted)
      exact .inl ⟨rfl, by rw [← same]; exact (view.metric_temps metric member).2⟩
  | expression op operands =>
    rw [available, and_eq_true, Bool.not_eq_true'] at accepted
    have fine := ((emit_accepted arithmetic view).2 operands last lower).mp accepted.2
    refine .inr ⟨by simp [lastTemp, accepted], ?_⟩
    rw [emit]
    simp only [accepted.1, fine, false_eq_true, if_false, length_append, List.length_singleton]
    omega

def columnsCode (last : Int) : List (ParseRange Number) → List (ViewInstruction Value)
  | [] => []
  | mi :: rest =>
    let code := (emit arithmetic view last (columnExpression mi).2).1
    code ++ columnsCode (last + code.length) rest

def columnResults (last : Int) : List (ParseRange Number) → List Int
  | [] => []
  | mi :: rest =>
    let first := emit arithmetic view last (columnExpression mi).2
    first.2 :: columnResults (last + first.1.length) rest

theorem exprInst_append (first second : List (ViewInstruction Value)) :
    exprInst (first ++ second) = exprInst first ++ exprInst second :=
  List.filter_append first second

theorem Numbered.exprInst (numbered : Numbered last code) : exprInst code = code :=
  List.filter_eq_self.mpr fun vp member => decide_eq_true (numbered.kind vp member)

def shown (column result : Int) : List (ViewInstruction Value) :=
  if result < 0 then [] else [.displayTmp column result]

theorem exprInst_shown (column result : Int) :
    exprInst (shown column result : List (ViewInstruction Value)) = [] := by
  unfold shown
  split
  · rfl
  · rfl

theorem findMaxTemp_shown (column result : Int) :
    findMaxTemp (shown column result : List (ViewInstruction Value)) = max (-1) result := by
  unfold shown
  split
  · rw [findMaxTemp_nil]
    omega
  · rfl

theorem generateColumn_emits (mi : ParseRange Number) (g : Generation Value) :
    (generateColumn arithmetic view mi g).1 = (emit arithmetic view g.lastUsedTemp (columnExpression mi).2).2 ∧
      (generateColumn arithmetic view mi g).2.iv = g.iv ++
        (emit arithmetic view g.lastUsedTemp (columnExpression mi).2).1 ++
        shown g.lastColumn (emit arithmetic view g.lastUsedTemp (columnExpression mi).2).2 ∧
      (generateColumn arithmetic view mi g).2.lastUsedTemp = g.lastUsedTemp +
        (emit arithmetic view g.lastUsedTemp (columnExpression mi).2).1.length := by
  obtain ⟨result, made⟩ := (evaluate_emits arithmetic view).1 (columnExpression mi).2 g
  unfold generateColumn shown
  dsimp only
  rw [result]
  split
  · exact ⟨rfl, made.iv.trans (append_nil _).symm, made.lastUsedTemp⟩
  · refine ⟨rfl, ?_, made.lastUsedTemp⟩
    simp only [Generation.pushBack, made.iv, made.lastColumn]

theorem generateColumns_emits (columns : List (ParseRange Number)) : ∀ g : Generation Value,
      (generateColumns arithmetic view columns g).1 = columnResults arithmetic view g.lastUsedTemp columns ∧
        exprInst (generateColumns arithmetic view columns g).2.iv =
          exprInst g.iv ++ columnsCode arithmetic view g.lastUsedTemp columns ∧
        (generateColumns arithmetic view columns g).2.lastUsedTemp = g.lastUsedTemp +
          (columnsCode arithmetic view g.lastUsedTemp columns).length := by
  induction columns with
  | nil =>
    intro g
    simp [generateColumns, columnResults, columnsCode]
  | cons mi rest ih =>
    intro g
    obtain ⟨result, iv, last⟩ := generateColumn_emits arithmetic view mi g
    have numbered := (emit_numbered arithmetic view).1 (columnExpression mi).2 g.lastUsedTemp
    obtain ⟨results, code, lastAfter⟩ := ih (generateColumn arithmetic view mi g).2
    rw [last] at results code lastAfter
    refine ⟨congrArg₂ List.cons result results, ?_, ?_⟩
    · rw [iv, exprInst_append, exprInst_append, exprInst_shown, append_nil, numbered.exprInst] at code
      rw [generateColumns, columnsCode, ← List.append_assoc]
      exact code
    · rw [columnsCode, length_append]
      refine lastAfter.trans ?_
      omega

structure ColumnCounts (g : Generation Value) (code : List (ViewInstruction Value))
    (kind : Option TempKind) (after : Generation Value) : Prop where
  size : after.lastUsedTemp = g.lastUsedTemp + code.length
  grows : findMaxTemp g.iv ≤ findMaxTemp after.iv
  bounded : findMaxTemp after.iv ≤ after.lastUsedTemp
  nothing : kind = none → code = [] ∧ findMaxTemp after.iv ≤ max (findMaxTemp g.iv) view.lastPredefinedTemp
  uncounted : kind = some .uncounted → code ≠ [] ∧ findMaxTemp after.iv < after.lastUsedTemp
  counted : kind = some .counted → code ≠ [] ∧ findMaxTemp after.iv = after.lastUsedTemp

theorem ColumnCounts.trans (lower : view.lastPredefinedTemp ≤ g.lastUsedTemp)
    (counts : ColumnCounts view g first kind middle) (others : ColumnCounts view middle second more after) :
    ColumnCounts view g (first ++ second) (more.or kind) after := by
  have size : after.lastUsedTemp = g.lastUsedTemp + (first ++ second).length := by
    rw [others.size, counts.size, length_append]
    omega
  have grows : findMaxTemp g.iv ≤ findMaxTemp after.iv := by
    have first := counts.grows
    have second := others.grows
    omega
  cases more with
  | some which =>
    refine ⟨size, grows, others.bounded, nofun, fun same => ?_, fun same => ?_⟩
    · obtain ⟨some_, smaller⟩ := others.uncounted same
      exact ⟨by simp [some_], smaller⟩
    · obtain ⟨some_, equal⟩ := others.counted same
      exact ⟨by simp [some_], equal⟩
  | none =>
    obtain ⟨nothing, below⟩ := others.nothing rfl
    have still : after.lastUsedTemp = middle.lastUsedTemp := by
      rw [others.size, nothing]
      simp
    have ordered := others.grows
    have bounded := others.bounded
    have middleSize := counts.size
    refine ⟨size, grows, bounded, fun same => ?_, fun same => ?_, fun same => ?_⟩
    · obtain ⟨empty, belowFirst⟩ := counts.nothing same
      exact ⟨by rw [nothing, empty]; rfl, by omega⟩
    · obtain ⟨some_, smaller⟩ := counts.uncounted same
      have positive := length_pos_iff.mpr some_
      exact ⟨by simp [some_], by omega⟩
    · obtain ⟨some_, equal⟩ := counts.counted same
      exact ⟨by simp [some_], by omega⟩

theorem generateColumn_counts (mi : ParseRange Number) {g : Generation Value}
    (lower : view.lastPredefinedTemp ≤ g.lastUsedTemp) (bounded : findMaxTemp g.iv ≤ g.lastUsedTemp) :
    ColumnCounts view g (emit arithmetic view g.lastUsedTemp (columnExpression mi).2).1
      (columnTemp view mi) (generateColumn arithmetic view mi g).2 := by
  obtain ⟨_, iv, last⟩ := generateColumn_emits arithmetic view mi g
  have start : -1 ≤ g.lastUsedTemp := by
    have temps := view.temps
    omega
  have counts := (emit_counts arithmetic view).1 (columnExpression mi).2 g.lastUsedTemp start
  have below := ((emit_numbered arithmetic view).1 (columnExpression mi).2 g.lastUsedTemp).findMaxTemp_le start
  have accepted := (emit_accepted arithmetic view).1 (columnExpression mi).2 g.lastUsedTemp start
  have result := emit_result arithmetic view (columnExpression mi).2 start
  have least := findMaxTemp_lower g.iv
  have whole : findMaxTemp (generateColumn arithmetic view mi g).2.iv =
      max (max (findMaxTemp g.iv)
        (findMaxTemp (emit arithmetic view g.lastUsedTemp (columnExpression mi).2).1))
        (emit arithmetic view g.lastUsedTemp (columnExpression mi).2).2 := by
    rw [iv, findMaxTemp_append, findMaxTemp_append, findMaxTemp_shown]
    omega
  unfold columnTemp
  dsimp only
  cases seen : available view (columnExpression mi).2 with
  | false =>
    have rejected : (emit arithmetic view g.lastUsedTemp (columnExpression mi).2).2 < 0 := by
      rw [seen, false_eq_true, false_iff, Int.not_le] at accepted
      exact accepted
    rw [if_neg (by simp)]
    refine ⟨last, by omega, by omega, fun same => ?_, fun same => ?_, fun same => ?_⟩
    · have empty := counts.nothing same
      rw [empty, findMaxTemp_nil] at whole
      exact ⟨empty, by omega⟩
    · obtain ⟨some_, smaller⟩ := counts.uncounted same
      have positive := length_pos_iff.mpr some_
      exact ⟨some_, by omega⟩
    · obtain ⟨some_, equal⟩ := counts.counted same
      exact ⟨some_, by omega⟩
  | true =>
    rw [if_pos rfl]
    obtain ⟨noTemp, low⟩ | ⟨temp, top⟩ := result seen
    · have empty := counts.nothing noTemp
      rw [empty, findMaxTemp_nil] at whole
      rw [empty, List.length_nil] at last
      rw [noTemp]
      exact ⟨by rw [empty]; exact last, by omega, by omega, fun _ => ⟨empty, by omega⟩, nofun, nofun⟩
    · have some_ : (emit arithmetic view g.lastUsedTemp (columnExpression mi).2).1 ≠ [] := by
        cases kind : lastTemp view (columnExpression mi).2 with
        | none => exact absurd kind temp
        | some which =>
          cases which with
          | counted => exact (counts.counted kind).1
          | uncounted => exact (counts.uncounted kind).1
      obtain ⟨which, kind⟩ := Option.ne_none_iff_exists'.mp temp
      rw [kind]
      exact ⟨last, by omega, by omega, nofun, nofun, fun _ => ⟨some_, by omega⟩⟩

theorem generateColumns_counts (columns : List (ParseRange Number)) :
    ∀ g : Generation Value, view.lastPredefinedTemp ≤ g.lastUsedTemp → findMaxTemp g.iv ≤ g.lastUsedTemp →
      ColumnCounts view g (columnsCode arithmetic view g.lastUsedTemp columns)
        (lastColumnTemp view columns) (generateColumns arithmetic view columns g).2 := by
  induction columns with
  | nil =>
    intro g lower bounded
    exact ⟨by simp [generateColumns, columnsCode], Int.le_refl _, bounded,
      fun _ => ⟨rfl, by simp only [generateColumns]; omega⟩, nofun, nofun⟩
  | cons mi rest ih =>
    intro g lower bounded
    have first := generateColumn_counts arithmetic view mi lower bounded
    have size := first.size
    have others := ih (generateColumn arithmetic view mi g).2 (by omega) first.bounded
    rw [size] at others
    exact first.trans view lower others

theorem columnsCode_numbered (columns : List (ParseRange Number)) :
    ∀ last : Int, Numbered last (columnsCode arithmetic view last columns) := by
  induction columns with
  | nil => exact fun last => trivial
  | cons mi rest ih =>
    intro last
    exact numbered_append.mpr ⟨(emit_numbered arithmetic view).1 (columnExpression mi).2 last, ih _⟩

theorem columnsCode_reads (columns : List (ParseRange Number)) :
    ∀ last : Int, ReadsDefined view.IsMetricTemp (columnsCode arithmetic view last columns) := by
  induction columns with
  | nil => exact fun last => trivial
  | cons mi rest ih =>
    intro last
    have first := ((emit_reads arithmetic view).1 (columnExpression mi).2 last).1
    exact readsDefined_append.mpr ⟨first, (ih _).mono fun _ => .inl⟩

def columnsAccumulate (columns : List (ParseRange Number)) : Bool :=
  columns.any fun mi => accumulates view (columnExpression mi).2

theorem columnsCode_accumulates (columns : List (ParseRange Number)) :
    ∀ last : Int, -1 ≤ last → (columnsAccumulate view columns = true ↔
      ∃ vp ∈ columnsCode arithmetic view last columns, canAccumulate vp.expressionOp = true) := by
  unfold columnsAccumulate
  induction columns with
  | nil => simp [columnsCode]
  | cons mi rest ih =>
    intro last lower
    have first := (emit_accumulates arithmetic view).1 (columnExpression mi).2 last lower
    have others := ih (last + (emit arithmetic view last (columnExpression mi).2).1.length) (by omega)
    rw [List.any_cons, or_eq_true, first, others, columnsCode]
    simp only [mem_append, or_and_right, exists_or]

theorem columnsCode_third {columns : List (ParseRange Number)}
    (formed : ∀ mi ∈ columns, wellFormed (columnExpression mi).2 = true) :
    ∀ last : Int, ∀ vp ∈ columnsCode arithmetic view last columns,
      canAccumulate vp.expressionOp = true → vp.opCode = .expression ∧ vp.tmpIndex3 = -1 := by
  induction columns with
  | nil => simp [columnsCode]
  | cons mi rest ih =>
    intro last vp member
    obtain first | other := mem_append.mp member
    · exact (emit_third arithmetic view).1 _ last (formed mi List.mem_cons_self) vp first
    · exact ih (fun other among => formed other (List.mem_cons_of_mem _ among)) _ vp other

end OpenSpeedShop.MetricExpressions
