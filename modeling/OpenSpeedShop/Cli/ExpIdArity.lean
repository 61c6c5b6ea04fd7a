import OpenSpeedShop.Cli.ExpIdArityCore

/-!
When a command line is refused for its experiment ids: the lengths of the ranges, added up
in 32 bits before a semicolon of the targets or at the end of the line, are over one.
-/

namespace OpenSpeedShop.ExpIdArity

open ParseResult (onlyOneExpId countRange)

def NumberRange.Denotes (id : Int) : NumberRange → Prop
  | number num => id = num
  | colon num1 num2 => num1 ≤ id ∧ id ≤ num2

def SeveralIds (ranges : List NumberRange) : Prop :=
  ∃ id other, id ≠ other ∧ (∃ range ∈ ranges, range.Denotes id) ∧ ∃ range ∈ ranges, range.Denotes other

def NumberRange.length : NumberRange → Int
  | number _ => 1
  | colon num1 num2 => toInt num2 - toInt num1 + 1

def totalLength (ranges : List NumberRange) : Int :=
  (ranges.map NumberRange.length).foldr (· + ·) 0

def OverOne (ranges : List NumberRange) : Prop := 1 < toInt (totalLength ranges)

instance (ranges : List NumberRange) : Decidable (OverOne ranges) :=
  inferInstanceAs (Decidable (1 < toInt (totalLength ranges)))

def CommaList.items {Item : Type} : CommaList Item → List Item
  | one item => [item]
  | comma list item => list.items ++ [item]

def Argument.expIds : Argument → List NumberRange
  | expIdListSpec list => list.items
  | _ => []

def TargetList.HasSemicolon : TargetList → Prop
  | one _ => False
  | semicolon _ _ => True

def Argument.HasSemicolon : Argument → Prop
  | targetList list => list.HasSemicolon
  | _ => False

def AtSemicolon (property : List NumberRange → Prop) (arguments : List Argument) : Prop :=
  ∃ before argument after, arguments = before ++ argument :: after ∧ argument.HasSemicolon ∧
    property (before.flatMap Argument.expIds)

def CommandDesc.expIds (desc : CommandDesc) : List NumberRange :=
  desc.arguments.flatMap Argument.expIds

def CommandLine.expIds : CommandLine → List NumberRange
  | endLine => []
  | command desc _ => desc.expIds

def CommandLine.IsCompare : CommandLine → Prop
  | endLine => False
  | command desc _ => desc.type = .expCompare

def CommandLine.ChecksArity (line : CommandLine) : Prop :=
  onlyOneExpId ∈ line.parse.errorList ↔ ¬line.IsCompare ∧ SeveralIds line.expIds

theorem toInt_add (num other : Int) : toInt (toInt num + other) = toInt (num + other) :=
  Int.bmod_add_bmod ..

def NumberRange.pushed : NumberRange → ParseRange
  | number num => .point (toInt num)
  | colon num1 num2 => .range (toInt num1) (toInt num2)

theorem countRange_pushed (count : Int) (range : NumberRange) :
    countRange count range.pushed = toInt (count + range.length) := by
  cases range <;> rfl

theorem foldl_countRange (ranges : List NumberRange) (count : Int) :
    (ranges.map NumberRange.pushed).foldl countRange (toInt count) = toInt (count + totalLength ranges) := by
  induction ranges generalizing count with
  | nil => exact congrArg toInt (Int.add_zero count).symm
  | cons range ranges ih =>
    rw [List.map_cons, List.foldl_cons, countRange_pushed, toInt_add, ih]
    exact congrArg toInt (Int.add_assoc ..)

variable {ranges : List NumberRange} {result : ParseResult}

theorem expIdCount_over (ids : result.experimentIdList = ranges.map NumberRange.pushed) :
    result.expIdCount > 1 ↔ OverOne ranges := by
  have counted := foldl_countRange ranges 0
  rw [Int.zero_add] at counted
  rw [ParseResult.expIdCount, ids, OverOne, ← counted]
  rfl

structure Reads (result : ParseResult) (ids : List NumberRange) (refused : Prop)
    (after : ParseResult) : Prop where
  commandType : after.commandType = result.commandType
  idList : after.experimentIdList = result.experimentIdList ++ ids.map NumberRange.pushed
  errors : onlyOneExpId ∈ after.errorList ↔ onlyOneExpId ∈ result.errorList ∨ refused

namespace Reads

variable {result middle after : ParseResult} {ids more : List NumberRange}
  {refused refusedAfter : Prop}

theorem refl (result : ParseResult) : Reads result [] False result where
  commandType := rfl
  idList := (List.append_nil _).symm
  errors := (or_iff_left id).symm

theorem trans (first : Reads result ids refused middle) (second : Reads middle more refusedAfter after) :
    Reads result (ids ++ more) (refused ∨ refusedAfter) after where
  commandType := second.commandType.trans first.commandType
  idList := by rw [second.idList, first.idList, List.map_append, List.append_assoc]
  errors := by rw [second.errors, first.errors, or_assoc]

theorem congr (reads : Reads result ids refused after) {same : Prop} (iff : refused ↔ same) :
    Reads result ids same after := propext iff ▸ reads

end Reads

theorem keepTarget_reads (result : ParseResult) : Reads result [] False result.keepTarget := by
  unfold ParseResult.keepTarget
  split
  · exact ⟨rfl, (List.append_nil _).symm, (or_iff_left id).symm⟩
  · exact Reads.refl result

theorem pushParseTarget_eq (result : ParseResult) : result.pushParseTarget =
      if result.commandType ≠ .expCompare ∧ result.keepTarget.expIdCount > 1 then
        result.keepTarget.setError onlyOneExpId else result.keepTarget := by
  have type := (keepTarget_reads result).commandType
  rw [← type]
  unfold ParseResult.pushParseTarget
  dsimp only
  split
  next compare => rw [if_neg fun found => found.1 compare]
  next other =>
    have different : result.keepTarget.commandType ≠ .expCompare := other
    simp only [ne_eq, different, not_false_eq_true, true_and]

variable {ids : List NumberRange}

theorem Reads.pushParseTarget (known : result.experimentIdList = ids.map NumberRange.pushed) :
    Reads result [] (result.commandType ≠ .expCompare ∧ OverOne ids) result.pushParseTarget := by
  have kept := keepTarget_reads result
  have counted : result.keepTarget.expIdCount > 1 ↔ OverOne ids :=
    expIdCount_over (by rw [kept.idList, List.map_nil, List.append_nil, known])
  rw [pushParseTarget_eq]
  simp only [counted]
  split
  next refused =>
    refine ⟨kept.commandType, kept.idList, iff_of_true ?_ (Or.inr refused)⟩
    exact List.mem_append_right _ List.mem_cons_self
  next accepted => exact kept.congr (iff_of_false id accepted)

theorem CommaList.run_reads {Item : Type} {action : ParseResult → Item → ParseResult}
    {ids : Item → List NumberRange} (acts : ∀ result item,
      Reads result (ids item) False (action result item)) (result : ParseResult) (list : CommaList Item) :
    Reads result (list.items.flatMap ids) False (list.run action result) := by
  induction list with
  | one item => simpa [CommaList.items, CommaList.run] using acts result item
  | comma list item ih =>
    have both := (ih.trans (acts (list.run action result) item)).congr (or_self_iff)
    simpa [CommaList.items, CommaList.run] using both

theorem onTarget_reads (push : ParseTarget → ParseTarget) (result : ParseResult) :
    Reads result [] False (onTarget push result) :=
  ⟨rfl, (List.append_nil _).symm, (or_iff_left id).symm⟩

theorem TargetElement.run_reads (result : ParseResult) (element : TargetElement) :
    Reads result [] False (element.run result) := by
  have none {Item : Type} {action : ParseResult → Item → ParseResult}
      (acts : ∀ result item, Reads result [] False (action result item))
      (list : CommaList Item) : Reads result [] False (list.run action result) := by
    have reads := list.run_reads acts result
    rwa [List.flatMap_eq_nil_iff.mpr fun _ _ => rfl] at reads
  cases element with
  | hostListSpec list => exact none (fun _ _ => onTarget_reads _ _) list
  | fileListSpec list => exact none (fun _ _ => onTarget_reads _ _) list
  | pidListSpec list => exact none (fun _ _ => onTarget_reads _ _) list
  | threadListSpec list => exact none (fun _ _ => onTarget_reads _ _) list
  | rankListSpec list => exact none (fun _ _ => onTarget_reads _ _) list

theorem Target.run_reads (result : ParseResult) (target : Target) :
    Reads result [] False (target.run result) := by
  induction target with
  | one element => exact element.run_reads result
  | more target element ih => exact (ih.trans (element.run_reads _)).congr or_self_iff

section

variable (known : result.experimentIdList = ids.map NumberRange.pushed)
  (unset : result.commandType ≠ .expCompare)
include known unset

theorem TargetList.run_reads (list : TargetList) :
    Reads result [] (list.HasSemicolon ∧ OverOne ids) (list.run result) := by
  induction list with
  | one target => exact (target.run_reads result).congr (by simp [TargetList.HasSemicolon])
  | semicolon list target ih =>
    have before : (list.run result).experimentIdList = ids.map NumberRange.pushed := by
      rw [ih.idList, List.map_nil, List.append_nil, known]
    have checked := ih.trans (Reads.pushParseTarget before)
    refine (checked.trans (target.run_reads _)).congr ?_
    have stillUnset : (list.run result).commandType ≠ .expCompare := ih.commandType ▸ unset
    simp only [TargetList.HasSemicolon, true_and, or_false]
    exact ⟨fun refused => refused.elim And.right And.right, fun several => Or.inr ⟨stillUnset, several⟩⟩

theorem Argument.run_reads (argument : Argument) :
    Reads result argument.expIds (argument.HasSemicolon ∧ OverOne ids) (argument.run result) := by
  have nothing {after : ParseResult} (reads : Reads result [] False after) :
      Reads result [] (False ∧ OverOne ids) after := reads.congr (by simp)
  cases argument with
  | expIdListSpec list =>
    have pushed : ∀ result range, Reads result [range] False (expIdRange result range) := by
      intro result range
      cases range <;> exact ⟨rfl, rfl, (or_iff_left id).symm⟩
    have reads := list.run_reads pushed result
    rw [List.flatMap_singleton'] at reads
    exact reads.congr (iff_of_false id And.left)
  | targetList list => exact list.run_reads known unset
  | target only => exact nothing (only.run_reads result)
  | fileSpec name => exact nothing (onTarget_reads (fun target =>
    { target with fileList := target.fileList ++ [name] }) result)
  | fileName name => exact nothing (onTarget_reads (fun target =>
    { target with fileList := target.fileList ++ [name] }) result)
  | other kind => exact nothing (Reads.refl result)

end

theorem atSemicolon_nil {property : List NumberRange → Prop} : ¬AtSemicolon property [] := by
  rintro ⟨before, argument, after, split, _⟩
  exact List.cons_ne_nil _ _ (List.append_eq_nil_iff.mp split.symm).2

theorem atSemicolon_cons {property : List NumberRange → Prop} {argument : Argument}
    {arguments : List Argument} : AtSemicolon property (argument :: arguments) ↔
      argument.HasSemicolon ∧ property [] ∨
        AtSemicolon (fun ids => property (argument.expIds ++ ids)) arguments := by
  constructor
  · rintro ⟨before, found, after, split, semicolon, holds⟩
    rcases List.cons_eq_append_iff.mp split with ⟨rfl, same⟩ | ⟨rest, rfl, same⟩
    · obtain ⟨rfl, rfl⟩ := List.cons.inj same
      exact Or.inl ⟨semicolon, holds⟩
    · exact Or.inr ⟨rest, found, after, same, semicolon, by simpa using holds⟩
  · rintro (⟨semicolon, holds⟩ | ⟨before, found, after, rfl, semicolon, holds⟩)
    · exact ⟨[], argument, arguments, rfl, semicolon, holds⟩
    · exact ⟨argument :: before, found, after, rfl, semicolon, by simpa using holds⟩

theorem arguments_reads (known : result.experimentIdList = ids.map NumberRange.pushed)
    (unset : result.commandType ≠ .expCompare) (arguments : List Argument) :
    Reads result (arguments.flatMap Argument.expIds)
      (AtSemicolon (fun before => OverOne (ids ++ before)) arguments)
      (arguments.foldl Argument.run result) := by
  induction arguments generalizing result ids with
  | nil => exact (Reads.refl result).congr (iff_of_false id atSemicolon_nil)
  | cons argument arguments ih =>
    have first := argument.run_reads known unset
    have after : (argument.run result).experimentIdList = (ids ++ argument.expIds).map NumberRange.pushed := by
      rw [first.idList, known, List.map_append]
    have rest := ih after (first.commandType ▸ unset)
    refine (first.trans rest).congr ?_
    rw [atSemicolon_cons]
    simp only [List.append_nil, List.append_assoc]

theorem refused_iff (line : CommandLine) : onlyOneExpId ∈ line.parse.errorList ↔ match line with
      | .endLine => False
      | .command desc _ => AtSemicolon OverOne desc.arguments ∨
          desc.type ≠ .expCompare ∧ OverOne desc.expIds := by
  cases line with
  | endLine => exact iff_of_false List.not_mem_nil id
  | command desc redirection =>
    have arguments : Reads .new desc.expIds _ _ :=
      @arguments_reads .new [] rfl (by decide) desc.arguments
    have line : (redirection.run (desc.run .new)).experimentIdList = desc.expIds.map NumberRange.pushed := by
      cases redirection <;> exact arguments.idList
    have last := (Reads.pushParseTarget line).errors
    have type : (redirection.run (desc.run .new)).commandType = desc.type := by
      cases redirection <;> rfl
    have errors : (redirection.run (desc.run .new)).errorList =
        (desc.arguments.foldl Argument.run .new).errorList := by
      cases redirection <;> rfl
    have fresh : onlyOneExpId ∉ ParseResult.new.errorList := List.not_mem_nil
    rw [type, errors, arguments.errors] at last
    simp only [fresh, false_or, List.nil_append] at last
    exact last

/-- What the check of a line rests on: a comparison has no semicolon behind lists of ids
that count more than one; for another command, a count over one goes with several ids. -/
def CommandLine.CountsIds : CommandLine → Prop
  | endLine => True
  | command desc _ =>
    let overOne := AtSemicolon OverOne desc.arguments ∨ OverOne desc.expIds
    if desc.type = .expCompare then ¬AtSemicolon OverOne desc.arguments
    else overOne ∧ SeveralIds desc.expIds ∨ ¬overOne ∧ ¬SeveralIds desc.expIds

theorem checksArity_iff (line : CommandLine) : line.ChecksArity ↔ line.CountsIds := by
  rw [CommandLine.ChecksArity, refused_iff]
  cases line with
  | endLine =>
    have none : ¬SeveralIds (CommandLine.endLine).expIds := by
      rintro ⟨_, _, _, ⟨_, inside, _⟩, _⟩
      exact List.not_mem_nil inside
    simp [none, CommandLine.CountsIds]
  | command desc redirection =>
    simp only [CommandLine.IsCompare, CommandLine.expIds, CommandLine.CountsIds]
    by_cases compare : desc.type = .expCompare
    · simp [compare]
    · simp only [compare, if_false, ne_eq, not_false_eq_true, true_and]
      exact iff_iff_and_or_not_and_not

def plainTarget (host : String) : Target := .one (.hostListSpec (.one (.name host)))

/-- `expCompare -x 1,2 -h a ; -h b` -/
def compareLine : CommandLine :=
  .command ⟨.expCompare, [.expIdListSpec (.comma (.one (.number 1)) (.number 2)),
    .targetList (.semicolon (.one (plainTarget "a")) (plainTarget "b"))], by decide⟩ .none

/-- `expView -x 1,2,5:3` -/
def descendingLine : CommandLine :=
  .command ⟨.expView, [.expIdListSpec
    (.comma (.comma (.one (.number 1)) (.number 2)) (.colon 5 3))], by decide⟩ .none

/-- `expView -x 1,1` -/
def repeatedLine : CommandLine :=
  .command ⟨.expView, [.expIdListSpec (.comma (.one (.number 1)) (.number 1))], by decide⟩ .none

theorem lines_checked_wrongly : ¬compareLine.ChecksArity ∧ ¬descendingLine.ChecksArity ∧
    ¬repeatedLine.ChecksArity := by
  refine ⟨fun checks => ?_, fun checks => ?_, fun checks => ?_⟩
  · exact (checks.mp (by decide)).1 rfl
  · have several : SeveralIds descendingLine.expIds :=
      ⟨1, 2, by decide, ⟨.number 1, by simp [descendingLine, CommandLine.expIds,
        CommandDesc.expIds, Argument.expIds, CommaList.items], rfl⟩, ⟨.number 2, by
        simp [descendingLine, CommandLine.expIds, CommandDesc.expIds, Argument.expIds, CommaList.items], rfl⟩⟩
    exact absurd (checks.mpr ⟨nofun, several⟩) (by decide)
  · obtain ⟨-, id, other, different, ⟨range, inside, denotes⟩, ⟨range', inside', denotes'⟩⟩ :=
      checks.mp (by decide)
    simp only [repeatedLine, CommandLine.expIds, CommandDesc.expIds, Argument.expIds,
      CommaList.items, List.flatMap_cons, List.flatMap_nil, List.append_nil, List.cons_append,
      List.nil_append, List.mem_cons, List.not_mem_nil, or_false, or_self] at inside inside'
    subst inside inside'
    exact different (denotes.trans denotes'.symm)

end OpenSpeedShop.ExpIdArity
