import OpenSpeedShop.Cli.CmdExecutionCore

/-! Which runs of the command handlers release what they have reserved. -/

namespace OpenSpeedShop.CmdExecution

open Bracket

variable {exp resource : EXPID} {next : Bool → Handler Bool} {after : Unit → Handler Bool}

@[simp] theorem balanced_qLock : (qLock exp >>= after).Balanced ↔ (after ()).Closes exp :=
  balanced_take

@[simp] theorem closes_qUnLock : (qUnLock exp >>= after).Closes exp ↔ (after ()).Balanced := closes_give

theorem caught_calls (outcomes : List Outcome) (result : Bool) :
    caught (do calls outcomes; return true) result = pure (if AllReturn outcomes then true else result) := by
  rw [calls_eq]
  split
  · rfl
  · rfl

@[simp] theorem balanced_determineStatus {getThreads : Outcome} :
    (determineStatus exp getThreads >>= after).Balanced ↔ getThreads = .returns ∧ (after ()).Balanced := by
  simp only [determineStatus, bind_assoc, balanced_qLock, closes_call, closes_qUnLock]

@[simp] theorem balanced_waitForExpState {polls : List Outcome} :
    (waitForExpState exp polls >>= after).Balanced ↔ AllReturn polls ∧ (after ()).Balanced := by
  induction polls with
  | nil => simp [waitForExpState, AllReturn]
  | cons getThreads rest ih =>
    have split : AllReturn (getThreads :: rest) ↔ getThreads = .returns ∧ AllReturn rest :=
      List.forall_mem_cons
    rw [waitForExpState, bind_assoc, balanced_determineStatus, ih, split, and_assoc]

@[simp] theorem closes_processExpTypes {types : ExpTypes} :
    (processExpTypes types >>= next).Closes resource ↔ (types.Succeeds ∧ (next true).Closes resource) ∨
        (¬ types.Succeeds ∧ ¬ types.Throws ∧ (next false).Closes resource) := by
  obtain ⟨collectors, offline, threads, failed, link⟩ := types
  simp only [processExpTypes, caught_calls, pure_bind, ExpTypes.Succeeds, ExpTypes.Throws, ExpTypes.Linked]
  by_cases made : AllReturn collectors
  · cases offline with
    | true => simp [made]
    | false =>
      by_cases found : AllReturn threads
      · cases failed with
        | true => simp [made, found]
        | false =>
          by_cases linked : AllReturn link
          · simp [made, found, linked]
          · simp [made, found, linked]
      · simp [made, found]
  · simp [made]

@[simp] theorem balanced_listUnder {refused : Bool} {found : Option EXPID}
    {outcomes : List Outcome} {Result : Type} {next : Bool → Handler Result} :
    (listUnder refused found outcomes >>= next).Balanced ↔
      if refused ∨ found = none then (next false).Balanced
      else AllReturn outcomes ∧ (next true).Balanced := by
  cases refused with
  | true => simp [listUnder]
  | false =>
    cases found with
    | none => simp [listUnder]
    | some exp => simp [listUnder, qLock, qUnLock, -bind_pure_comp]

theorem listUnder_balanced {refused : Bool} {found : Option EXPID} {outcomes : List Outcome} :
    (listUnder refused found outcomes).Balanced ↔ (!refused → found.isSome → AllReturn outcomes) := by
  have whole : (listUnder refused found outcomes >>= pure).Balanced ↔ _ := balanced_listUnder
  rw [bind_pure] at whole
  rw [whole]
  cases refused with
  | true => simp
  | false => cases found <;> simp

theorem forSelected_balanced {Item : Type} {body : Item → Handler Bool} {holds succeeds : Item → Prop}
    (rule : ∀ item, (body item).Reports (holds item) (succeeds item)) (experiments : Selected Item) :
    (forSelected body experiments).Balanced ↔ experiments.Holds holds succeeds := by
  cases experiments with
  | all items => exact Action.Reports.forEach rule items
  | specified item =>
    cases item with
    | none => simp [forSelected, Selected.Holds]
    | some item => simpa [forSelected, Selected.Holds] using (rule item).balanced

theorem ExpTypes.Succeeds.not_throws {types : ExpTypes} (succeeds : types.Succeeds) : ¬ types.Throws := by
  intro throws
  have online : ¬ types.offline := by simpa using throws.1.2.1
  exact throws.2 (succeeds.2.resolve_left online).2.2

theorem expAttach_balanced (found : Option EXPID) (types : ExpTypes) :
    (expAttach found types).Balanced ↔ (found.isSome → ¬ types.Throws) := by
  cases found with
  | none => simp [expAttach]
  | some exp =>
    simp only [expAttach, balanced_qLock, closes_processExpTypes, closes_qUnLock, balanced_pure,
      and_true, Option.isSome_some, forall_const]
    by_cases succeeded : types.Succeeds
    · simp [succeeded, succeeded.not_throws]
    · simp [succeeded]

theorem expCreate_balanced (found : Option EXPID) (types : ExpTypes) :
    (expCreate found types).Balanced ↔ (found.isSome → ¬ types.Throws) := by
  cases found with
  | none => simp [expCreate]
  | some exp =>
    simp only [expCreate, balanced_qLock, closes_processExpTypes, ↓reduceIte, closes_qUnLock,
      balanced_pure, and_true, Bool.false_eq_true, Option.isSome_some, forall_const]
    by_cases succeeded : types.Succeeds
    · simp [succeeded, succeeded.not_throws]
    · simp [succeeded]

theorem expDetach_balanced (found : Option EXPID) (types : ExpTypes) :
    (expDetach found types).Balanced ↔ (found.isSome → types.Succeeds) := by
  cases found with
  | none => simp [expDetach]
  | some exp =>
    simp only [expDetach, balanced_qLock, closes_processExpTypes, ↓reduceIte, closes_qUnLock,
      balanced_pure, and_true, Bool.false_eq_true, not_closes_pure, and_false, or_false,
      Option.isSome_some, forall_const]

theorem destroyExperiment_reports (input : Destroy) :
    (destroyExperiment input).Reports input.Releases input.Succeeds := by
  intro next
  obtain ⟨exp, getThreads, killing, polls⟩ := input
  simp only [destroyExperiment, bind_assoc, balanced_determineStatus, Destroy.Releases, Destroy.Succeeds]
  cases killing with
  | none => simp
  | some killing => cases killing <;> simp [attempt, and_assoc]

theorem start_reports (exp : EXPID) (input : Start) :
    (start exp input).Reports input.Releases input.Succeeds := by
  intro next
  obtain ⟨running, polls, annotation⟩ := input
  cases running with
  | none => simp [start, Start.Releases, Start.Succeeds]
  | some running =>
    cases running <;>
      simp [start, Start.Releases, Start.Succeeds, attempt, -bind_pure_comp]

theorem balanced_prepare {input : Rerun} :
    (prepare exp input >>= after).Balanced ↔ input.Releases ∧ (input.Named → (after ()).Balanced) := by
  obtain ⟨saveCopy, prepareToRerun⟩ := input
  cases saveCopy with
  | none => simp [prepare, Rerun.Releases, Rerun.Named, qLock, qUnLock]
  | some copy =>
    simp only [prepare, bind_assoc, balanced_calls, balanced_qLock, closes_call, closes_qUnLock,
      Rerun.Releases, Rerun.Named, Option.mem_some_iff, forall_eq']
    by_cases named : AllReturn copy.1
    · simp [named, and_assoc]
    · simp [named]

theorem balanced_prepareIfRerun {rerun : Option Rerun} : (prepareIfRerun exp rerun >>= after).Balanced ↔
      (∀ input ∈ rerun, input.Releases) ∧ ((∀ input ∈ rerun, input.Named) → (after ()).Balanced) := by
  cases rerun with
  | none => simp [prepareIfRerun]
  | some input => simp [prepareIfRerun, balanced_prepare]

theorem executeExperiment_reports (input : Execute) :
    (executeExperiment input).Reports input.Releases input.Succeeds := by
  intro next
  have started := start_reports input.exp input.starting next
  simp only [executeExperiment, bind_assoc, balanced_determineStatus, Execute.Releases,
    Execute.Succeeds, Execute.Prepared]
  cases input.offline with
  | true => simp [bind_assoc, and_assoc, qUnLock, -bind_pure_comp]
  | false =>
    cases input.hasFW with
    | false => simp [-bind_pure_comp]
    | true =>
      cases input.inError with
      | true => simp [-bind_pure_comp]
      | false =>
        simp only [Bool.false_eq_true, ↓reduceIte, Bool.not_true, balanced_qLock, bind_assoc,
          closes_qUnLock, balanced_calls, balanced_prepareIfRerun, started]
        grind

theorem continueExperiment_reports (input : Continue) :
    (continueExperiment input).Reports input.Releases input.Succeeds := by
  intro next
  have started := start_reports input.exp input.starting next
  simp only [continueExperiment, bind_assoc, balanced_determineStatus, Continue.Releases, Continue.Succeeds]
  cases input.refused with
  | true => simp
  | false => simp [started, and_assoc]

theorem report_reports (input : Report) : (report input).Reports input.Releases input.Succeeds := by
  intro next
  simp only [report, bind_assoc, balanced_qLock, closes_call, caught_calls, pure_bind,
    Report.Releases, Report.Succeeds]
  by_cases returns : AllReturn input.calls
  · simp [returns, -bind_pure_comp]
  · simp [returns, -bind_pure_comp]

theorem listStatusOf_reports (input : EXPID × Outcome) :
    (listStatusOf input).Reports (input.2 = .returns) True := by
  intro next
  simp [listStatusOf, bind_assoc, -bind_pure_comp]

theorem customViewInfo_reports (view : CustomView) : (customViewInfo view).Reports view.Releases True := by
  intro next
  obtain ⟨exp, ranks, threads⟩ := view
  cases exp with
  | none => simp [customViewInfo, CustomView.Releases]
  | some exp =>
    simp [customViewInfo, CustomView.Releases, getNumber, bind_assoc, and_assoc, qUnLock, -bind_pure_comp]

theorem forSelected_report_balanced (experiments : Selected Report) :
    (forSelected report experiments).Balanced ↔ experiments.Holds Report.Releases Report.Succeeds :=
  forSelected_balanced report_reports experiments

theorem expSave_balanced (found : Option EXPID) (fileName : Bool) (saveDB : Outcome) :
    (expSave found fileName saveDB).Balanced ↔ (found.isSome → fileName → saveDB = .returns) := by
  cases found with
  | none => simp [expSave]
  | some exp =>
    cases fileName with
    | false => simp [expSave]
    | true =>
      cases saveDB with
      | returns =>
        have pair : Balanced [.take exp, .give exp] := balanced_pair.mpr balanced_nil
        exact iff_of_true pair (fun _ _ => rfl)
      | throws =>
        refine iff_of_false (not_balanced_take exp) fun released => ?_
        simpa using released rfl rfl

theorem expSetArgs_balanced (found : Option EXPID) (outcomes : List Outcome) (failed : Bool) :
    (expSetArgs found outcomes failed).Balanced ↔ (found.isSome → AllReturn outcomes) := by
  cases found with
  | none => simp [expSetArgs]
  | some exp => simp [expSetArgs, qUnLock, -bind_pure_comp]

theorem setParams_eq (outcomes : List (List Outcome)) : setParams outcomes = pure () := by
  induction outcomes with
  | nil => rfl
  | cons first rest ih => rw [setParams, caught_calls, pure_bind, ih]

theorem expSetParam_balanced (found : Option EXPID) (isParam : Bool) (collectors : Collectors)
    (failed : Bool) :
    (expSetParam found isParam collectors failed).Balanced ↔ (found.isSome → isParam → collectors.Known) := by
  cases found with
  | none => simp [expSetParam]
  | some exp =>
    cases isParam with
    | false => simp [expSetParam]
    | true =>
      cases collectors with
      | specified outcomes =>
        simp [expSetParam, setParamOf, setParams_eq, Collectors.Known, qUnLock, -bind_pure_comp]
      | every getCollectors outcomes =>
        simp [expSetParam, setParamOf, setParams_eq, Collectors.Known, qUnLock, -bind_pure_comp]

theorem forEach_attempt_of_releases {views : List Attempt}
    (releases : ForEach (· ≠ .throws) (· = .succeeds) views) :
    ∃ viewResult, (forEach attempt views : Handler Bool) = pure viewResult := by
  induction views with
  | nil => exact ⟨true, rfl⟩
  | cons view rest ih =>
    cases view with
    | succeeds => exact ih (releases.2 rfl)
    | fails => exact ⟨false, rfl⟩
    | throws => exact absurd rfl releases.1

theorem forEach_attempt_of_not_releases {views : List Attempt}
    (unreleased : ¬ ForEach (· ≠ .throws) (· = .succeeds) views) :
    (forEach attempt views : Handler Bool) = Action.throw := by
  induction views with
  | nil => exact absurd trivial unreleased
  | cons view rest ih =>
    cases view with
    | succeeds =>
      refine ih fun releases => unreleased ⟨by simp, fun _ => releases⟩
    | fails => exact absurd ⟨by simp, by simp⟩ unreleased
    | throws => rfl

def Quiet (collector : Outcome × Option Attempt) : Prop :=
  collector.1 = .returns ∧ collector.2 ≠ some .throws

theorem viewsOf_of_quiet {collectors : List (Outcome × Option Attempt)}
    (quiet : ∀ collector ∈ collectors, Quiet collector) (result : Bool × Bool) :
    ∃ viewResult, viewsOf collectors result = pure (viewResult, result.2 || collectors.any (·.2.isSome)) := by
  induction collectors generalizing result with
  | nil => exact ⟨result.1, by simp [viewsOf]⟩
  | cons collector rest ih =>
    obtain ⟨name, view⟩ := collector
    have restQuiet : ∀ other ∈ rest, Quiet other :=
      fun other within => quiet other (List.mem_cons_of_mem _ within)
    have named : name = .returns := (quiet _ List.mem_cons_self).1
    have viewed : view ≠ some .throws := (quiet _ List.mem_cons_self).2
    subst named
    match view with
    | none => simpa [viewsOf, call] using ih restQuiet result
    | some .succeeds => simpa [viewsOf, call, attempt] using ih restQuiet (true, true)
    | some .fails => simpa [viewsOf, call, attempt] using ih restQuiet (false, true)
    | some .throws => exact absurd rfl viewed

theorem viewsOf_of_not_quiet {collectors : List (Outcome × Option Attempt)}
    (throws : ¬ ∀ collector ∈ collectors, Quiet collector) (result : Bool × Bool) :
    viewsOf collectors result = Action.throw := by
  induction collectors generalizing result with
  | nil => exact absurd (by simp) throws
  | cons collector rest ih =>
    obtain ⟨name, view⟩ := collector
    cases name with
    | throws => rfl
    | returns =>
      have later (viewed : view ≠ some .throws) : ¬ ∀ other ∈ rest, Quiet other :=
        fun restQuiet => throws (List.forall_mem_cons.mpr ⟨⟨rfl, viewed⟩, restQuiet⟩)
      match view with
      | none => simpa [viewsOf, call] using ih (later (by simp)) result
      | some .succeeds =>
        simpa [viewsOf, call, attempt] using ih (later (by simp)) (true, true)
      | some .fails =>
        simpa [viewsOf, call, attempt] using ih (later (by simp)) (false, true)
      | some .throws => rfl

theorem generate_of_releases {viewType : ViewType} (exp : EXPID) (releases : viewType.Releases) :
    ∃ viewResult, generate (some exp) viewType = pure (viewResult, true) := by
  cases viewType with
  | listed views =>
    obtain ⟨viewResult, generated⟩ := forEach_attempt_of_releases releases
    exact ⟨viewResult, by simp [generate, generated]⟩
  | unspecified hasFW getCollectors ofCollectors =>
    cases hasFW with
    | false => exact ⟨false, by simp [generate]⟩
    | true =>
      have got : getCollectors = .returns := (releases rfl).1
      by_cases empty : ofCollectors = []
      · exact ⟨false, by simp [generate, got, call, empty]⟩
      · have found := (releases rfl).2 empty
        obtain ⟨viewResult, generated⟩ := viewsOf_of_quiet found.1 (true, false)
        have any : ofCollectors.any (·.2.isSome) = true := List.any_eq_true.mpr found.2
        exact ⟨viewResult, by simp [generate, got, call, empty, generated, any]⟩

theorem generate_of_not_releases {viewType : ViewType} (exp : EXPID) (unreleased : ¬ viewType.Releases) :
    generate (some exp) viewType = Action.throw ∨ generate (some exp) viewType = pure (false, false) := by
  cases viewType with
  | listed views =>
    left
    simp [generate, forEach_attempt_of_not_releases unreleased, -bind_pure_comp]
  | unspecified hasFW getCollectors ofCollectors =>
    cases hasFW with
    | false => exact absurd (by simp [ViewType.Releases]) unreleased
    | true =>
      cases getCollectors with
      | throws =>
        left
        simp [generate, call]
      | returns =>
        have nonempty : ofCollectors ≠ [] := by
          intro empty
          exact unreleased (by simp [ViewType.Releases, empty])
        by_cases quiet : ∀ collector ∈ ofCollectors, Quiet collector
        · right
          have any : ofCollectors.any (·.2.isSome) = false := by
            by_contra found
            refine unreleased fun _ => ⟨rfl, fun _ => ⟨quiet, ?_⟩⟩
            exact List.any_eq_true.mp (Bool.of_not_eq_false found)
          obtain ⟨viewResult, generated⟩ := viewsOf_of_quiet quiet (true, false)
          simp [generate, call, nonempty, generated, any]
        · left
          simp [generate, call, nonempty, viewsOf_of_not_quiet quiet]

theorem generate_none (viewType : ViewType) :
    generate none viewType = Action.throw ∨ ∃ result, generate none viewType = pure result := by
  cases viewType with
  | unspecified hasFW getCollectors ofCollectors => exact .inr ⟨(false, true), rfl⟩
  | listed views =>
    by_cases releases : ForEach (· ≠ .throws) (· = .succeeds) views
    · obtain ⟨viewResult, generated⟩ := forEach_attempt_of_releases releases
      exact .inr ⟨(viewResult, true), by simp [generate, generated]⟩
    · exact .inl (by simp [generate, forEach_attempt_of_not_releases releases, -bind_pure_comp])

theorem expView_balanced (found : Option EXPID) (polls : Option (List Outcome)) (viewType : ViewType) :
    (expView found polls viewType).Balanced ↔
      (found.isSome → AllReturn (polls.getD []) ∧ viewType.Releases) := by
  cases found with
  | none =>
    refine iff_of_true ?_ (by simp)
    rcases generate_none viewType with thrown | ⟨result, generated⟩
    · simp [expView, thrown, -bind_pure_comp]
    · simp [expView, generated]
  | some exp =>
    simp only [expView, balanced_waitForExpState, balanced_qLock, Option.isSome_some, forall_const]
    refine and_congr_right fun _ => ?_
    by_cases releases : viewType.Releases
    · obtain ⟨viewResult, generated⟩ := generate_of_releases exp releases
      simp [generated, releases, -bind_pure_comp]
    · rcases generate_of_not_releases exp releases with thrown | unfound
      · simp [thrown, releases]
      · simp [unfound, releases]

theorem fromSource_balanced (source : Source) : (fromSource source).Balanced ↔ source.Releases := by
  cases source with
  | known outcomes => simp [fromSource, Source.Releases, -bind_pure_comp]
  | experiment found outcomes =>
    have rule : (listUnder false found outcomes).Balanced ↔ _ := listUnder_balanced
    simpa [fromSource, Source.Releases] using rule

theorem balanced_collectorsOf {source : Source} {next : Option Bool → Handler Bool}
    (rest : ∀ failed, (next failed).Balanced) :
    (collectorsOf source >>= next).Balanced ↔ source.Releases := by
  cases source with
  | known outcomes =>
    simp [collectorsOf, caught_calls, Source.Releases, rest, -bind_pure_comp]
  | experiment found outcomes =>
    cases found with
    | none => simp [collectorsOf, listUnder, Source.Releases, rest]
    | some exp => simp [collectorsOf, Source.Releases, rest]

theorem listMetrics_balanced (source : Source) (later : List Outcome) :
    (listMetrics source later).Balanced ↔ source.Releases := by
  refine balanced_collectorsOf fun failed => ?_
  match failed with
  | none => exact balanced_pure false
  | some true => exact balanced_pure true
  | some false => simp [-bind_pure_comp]

theorem listMPICategories_balanced (source : Source) :
    (listMPICategories source).Balanced ↔ source.Releases := by
  refine balanced_collectorsOf fun failed => ?_
  cases failed with
  | none => exact balanced_pure false
  | some failed => exact balanced_pure true

theorem listWallTime_balanced (input : Option Report) :
    (listWallTime input).Balanced ↔ ∀ found ∈ input, found.Releases := by
  cases input with
  | none => simp [listWallTime]
  | some found => simpa [listWallTime] using (report_reports found).balanced

theorem listComponents_balanced (experiments : Selected Report) :
    (listComponents experiments).Balanced ↔ experiments.Holds Report.Releases Report.Succeeds := by
  cases experiments with
  | all items => exact forSelected_report_balanced (.all items)
  | specified item => exact forSelected_report_balanced (.specified item)

/-- A handler gives back every experiment it has reserved, once for each time, on exactly the runs on
which no call between `Q_Lock` and `Q_UnLock` makes it leave early. -/
theorem releases_iff (command : Command) : command.execute.Balanced ↔ command.Releases := by
  cases command with
  | expAttach exp types => exact expAttach_balanced exp types
  | expDetach exp types => exact expDetach_balanced exp types
  | expCreate exp types => exact expCreate_balanced exp types
  | expClose experiments => exact forSelected_balanced destroyExperiment_reports experiments
  | expGo experiments => exact forSelected_balanced executeExperiment_reports experiments
  | expCont experiments => exact forSelected_balanced continueExperiment_reports experiments
  | expPause experiments => exact forSelected_balanced continueExperiment_reports experiments
  | expSave exp fileName saveDB => exact expSave_balanced exp fileName saveDB
  | expSetArgs exp outcomes failed => exact expSetArgs_balanced exp outcomes failed
  | expSetParam exp isParam collectors failed =>
    exact expSetParam_balanced exp isParam collectors failed
  | expStatus experiments => exact forSelected_report_balanced experiments
  | expView exp polls viewType => exact expView_balanced exp polls viewType
  | listTypes source => exact fromSource_balanced source
  | listViews source => exact fromSource_balanced source
  | listMetrics source later => exact listMetrics_balanced source later
  | listParams source later => exact listMetrics_balanced source later
  | listMPICategories source => exact listMPICategories_balanced source
  | listStatus experiments => exact forSelected_balanced listStatusOf_reports experiments
  | listWallTime input => exact listWallTime_balanced input
  | listComponents experiments => exact listComponents_balanced experiments
  | cvInfo views => exact Action.Reports.forEach customViewInfo_reports views
  | listHosts | listPids | listRanks | listNumberOfRanks | getListOfRanks | listThreads
  | listNumberOfThreads | listPidsAndThreads | listRanksAndPids | listRanksAndThreads | listObj
  | listSrc | listSrcFullPath | listStatements | listLoopStatements | listLoops | listFunctions
  | listMangled => exact listUnder_balanced

theorem expDetach_leaves_reserved :
    ¬ (Command.expDetach (some 1) ⟨[.throws], false, [], false, []⟩).execute.Balanced :=
  not_balanced_take 1

end OpenSpeedShop.CmdExecution
