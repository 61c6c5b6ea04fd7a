import OpenSpeedShop.Library.Bracket

/-!
Which experiments the command handlers reserve and release. The arguments of a handler and the outcomes
of its framework calls, in their order, are its inputs; what has no influence is left out.
-/

namespace OpenSpeedShop.CmdExecution

open Bracket

abbrev EXPID := Nat

abbrev Handler := Bracket.Action EXPID

def qLock (exp : EXPID) : Handler Unit := Action.take exp

def qUnLock (exp : EXPID) : Handler Unit := Action.give exp

/-- Reports an exception of the framework: `catch (const Exception& error)` with a result. -/
def caught (body : Handler Bool) (result : Bool) : Handler Bool := body.catching (pure result)

/-- `exp->Q_Lock (cmd, ...); exp->Determine_Status(); exp->Q_UnLock ();`. The outcome is the one
of `getThreads`; the states of the threads are read in a `try` block. -/
def determineStatus (exp : EXPID) (getThreads : Outcome) : Handler Unit := do
  qLock exp
  call getThreads
  qUnLock exp

def waitForExpState (exp : EXPID) : List Outcome → Handler Unit
  | [] => pure ()
  | getThreads :: rest => do
      determineStatus exp getThreads
      waitForExpState exp rest

structure ExpTypes where
  collectors : List Outcome
  offline : Bool
  threads : List Outcome
  failed : Bool
  link : List Outcome

def processExpTypes (types : ExpTypes) : Handler Bool := do
  if ← caught (do calls types.collectors; return true) false then
    if types.offline then return true
    else if ← caught (do calls types.threads; return true) false then
      if types.failed then return false
      else
        calls types.link
        return true
    else return false
  else return false

/-- The experiments that a command is for: all those of the list, or the specified one if it
exists. -/
inductive Selected (Item : Type)
  | all (items : List Item)
  | specified (item : Option Item)

def forSelected {Item : Type} (body : Item → Handler Bool) : Selected Item → Handler Bool
  | .all items => forEach body items
  | .specified none => return false
  | .specified (some item) => body item

/-- The handlers that do not accept some arguments, and do nothing then; otherwise they make
their calls under the reservation. -/
def listUnder (refused : Bool) (exp : Option EXPID) (outcomes : List Outcome) : Handler Bool := do
  if refused then return false
  else match exp with
    | none => return false
    | some exp =>
      qLock exp
      calls outcomes
      qUnLock exp
      return true

/-- The reservation of the handlers that report on an experiment: the status is determined
before the `try` block begins. -/
structure Report where
  exp : EXPID
  getThreads : Outcome
  calls : List Outcome

def report (input : Report) : Handler Bool := do
  qLock input.exp
  call input.getThreads
  if ← caught (do calls input.calls; return true) false then
    qUnLock input.exp
    return true
  else
    qUnLock input.exp
    return false

def reportStatus : Report → Handler Bool := report

def reportComponents : Report → Handler Bool := report

def getNumber (exp : EXPID) (outcomes : List Outcome) : Handler Unit := do
  qLock exp
  calls outcomes
  qUnLock exp

def expAttach (exp : Option EXPID) (types : ExpTypes) : Handler Bool := do
  match exp with
  | none => return false
  | some exp =>
    qLock exp
    let processOK ← processExpTypes types
    qUnLock exp
    return processOK

def expDetach (exp : Option EXPID) (types : ExpTypes) : Handler Bool := do
  match exp with
  | none => return false
  | some exp =>
    qLock exp
    if ← processExpTypes types then
      qUnLock exp
      return true
    -- Don't return anything more if errors have been detected.
    else return false

def expCreate (exp : Option EXPID) (types : ExpTypes) : Handler Bool := do
  match exp with
  | none => return false
  | some exp =>
    qLock exp
    if ← processExpTypes types then
      qUnLock exp
      return true
    else
      qUnLock exp
      return false

structure Destroy where
  exp : EXPID
  getThreads : Outcome
  killing : Option Attempt
  polls : List Outcome

def destroyExperiment (input : Destroy) : Handler Bool := do
  determineStatus input.exp input.getThreads
  match input.killing with
  | none => return true
  | some killing =>
    if ← attempt killing then
      waitForExpState input.exp input.polls
      return true
    else return false

def expClose : Selected Destroy → Handler Bool := forSelected destroyExperiment

structure Start where
  running : Option Attempt
  polls : List Outcome
  annotation : List Outcome

def start (exp : EXPID) (input : Start) : Handler Bool := do
  match input.running with
  | none => return true
  | some running =>
    if ← attempt running then
      waitForExpState exp input.polls
      calls input.annotation
      return true
    else return false

/-- `before` are the calls made to find out whether the run is a rerun, and `rerun` is there
when it is one. -/
structure Rerun where
  saveCopy : Option (List Outcome × Outcome)
  prepareToRerun : Outcome

structure Execute where
  exp : EXPID
  getThreads : Outcome
  offline : Bool
  offlineCalls : List Outcome
  hasFW : Bool
  inError : Bool
  before : List Outcome
  rerun : Option Rerun
  rerunCount : List Outcome
  starting : Start

/-- Keeps a copy of the database of the previous run, when that is preferred, and prepares the
experiment. -/
def prepare (exp : EXPID) (input : Rerun) : Handler Unit := do
  match input.saveCopy with
  | some (names, copyDB) => do
      calls names
      qLock exp
      call copyDB
      qUnLock exp
  | none => pure ()
  qLock exp
  call input.prepareToRerun
  qUnLock exp

def prepareIfRerun (exp : EXPID) : Option Rerun → Handler Unit
  | some rerun => prepare exp rerun
  | none => pure ()

def executeExperiment (input : Execute) : Handler Bool := do
  determineStatus input.exp input.getThreads
  if input.offline then
    qLock input.exp
    calls input.offlineCalls
    qUnLock input.exp
    qLock input.exp
    qUnLock input.exp
    return true
  else
    qLock input.exp
    if !input.hasFW then
      -- The experiment can not be run because it is not attached to an application.
      return false
    else
      qUnLock input.exp
      if input.inError then return false
      else
        calls input.before
        prepareIfRerun input.exp input.rerun
        calls input.rerunCount
        start input.exp input.starting

def expGo : Selected Execute → Handler Bool := forSelected executeExperiment

structure Continue where
  exp : EXPID
  getThreads : Outcome
  refused : Bool
  starting : Start

def continueExperiment (input : Continue) : Handler Bool := do
  determineStatus input.exp input.getThreads
  if input.refused then return false else start input.exp input.starting

def expCont : Selected Continue → Handler Bool := forSelected continueExperiment

def pauseExperiment : Continue → Handler Bool := continueExperiment

def expPause : Selected Continue → Handler Bool := forSelected pauseExperiment

def expSave (exp : Option EXPID) (fileName : Bool) (saveDB : Outcome) : Handler Bool := do
  match exp with
  | none => return false
  | some exp =>
    if !fileName then return false
    else
      caught (do
        qLock exp
        call saveDB
        qUnLock exp
        return true) false

def expSetArgs (exp : Option EXPID) (outcomes : List Outcome) (failed : Bool) : Handler Bool := do
  match exp with
  | none => return false
  | some exp =>
    qLock exp
    calls outcomes
    qUnLock exp
    return !failed

/-- The collector that the user has specified, or all those of the experiment, each with the
outcomes of its calls. -/
inductive Collectors
  | specified (outcomes : List Outcome)
  | every (getCollectors : Outcome) (outcomes : List (List Outcome))

def setParams : List (List Outcome) → Handler Unit
  | [] => pure ()
  | outcomes :: rest => do
      let _ ← caught (do calls outcomes; return true) false
      setParams rest

def setParamOf : Collectors → Handler Unit
  | .specified outcomes => setParams [outcomes]
  | .every getCollectors outcomes => do
      call getCollectors
      setParams outcomes

def expSetParam (exp : Option EXPID) (isParam : Bool) (collectors : Collectors) (failed : Bool) :
    Handler Bool := do
  match exp with
  | none => return false
  | some exp =>
    if !isParam then return true
    else
      qLock exp
      setParamOf collectors
      qUnLock exp
      return !failed

def expStatus : Selected Report → Handler Bool := forSelected reportStatus

/-- What a view is generated of. A collector is asked for its name, and has a view of that name
or not. -/
inductive ViewType
  | listed (views : List Attempt)
  | unspecified (hasFW : Bool) (getCollectors : Outcome) (ofCollectors : List (Outcome × Option Attempt))

def viewsOf : List (Outcome × Option Attempt) → Bool × Bool → Handler (Bool × Bool)
  | [], result => pure result
  | (name, view) :: rest, result => do
      call name
      match view with
      | none => viewsOf rest result
      | some view =>
        let viewResult ← attempt view
        viewsOf rest (viewResult, true)

def generate (exp : Option EXPID) : ViewType → Handler (Bool × Bool)
  | .listed views => do
      let viewResult ← forEach attempt views
      return (viewResult, true)
  | .unspecified hasFW getCollectors ofCollectors => do
      if exp.isNone || !hasFW then return (false, true)
      else
        call getCollectors
        if ofCollectors.isEmpty then return (false, true)
        else
          let (viewResult, viewFound) ← viewsOf ofCollectors (true, false)
          if viewFound then return (viewResult, true) else return (false, false)

def expView (exp : Option EXPID) (polls : Option (List Outcome)) (viewType : ViewType) : Handler Bool := do
  match exp with
  | none => do
      let (viewResult, _) ← generate none viewType
      return viewResult
  | some exp => do
      waitForExpState exp (polls.getD [])
      qLock exp
      let (viewResult, goesOn) ← generate (some exp) viewType
      if goesOn then
        qUnLock exp
        return viewResult
      else return viewResult

/-- The arguments and outcomes of a handler that makes all its calls on an experiment under the
reservation. -/
structure Listing where
  all : Bool
  usesF : Bool
  exp : Option EXPID
  outcomes : List Outcome

def listHosts (input : Listing) : Handler Bool := listUnder input.all input.exp input.outcomes

def listPids (input : Listing) : Handler Bool :=
  listUnder (input.all || input.usesF) input.exp input.outcomes

def listRanks (input : Listing) : Handler Bool :=
  listUnder (input.all || input.usesF) input.exp input.outcomes

def listNumberOfRanks (input : Listing) : Handler Bool :=
  listUnder (input.all || input.usesF) input.exp input.outcomes

def getListOfRanks (input : Listing) : Handler Bool :=
  listUnder (input.all || input.usesF) input.exp input.outcomes

def listThreads (input : Listing) : Handler Bool :=
  listUnder (input.all || input.usesF) input.exp input.outcomes

def listNumberOfThreads (input : Listing) : Handler Bool :=
  listUnder (input.all || input.usesF) input.exp input.outcomes

def listPidsAndThreads (input : Listing) : Handler Bool :=
  listUnder (input.all || input.usesF) input.exp input.outcomes

def listRanksAndPids (input : Listing) : Handler Bool :=
  listUnder (input.all || input.usesF) input.exp input.outcomes

def listRanksAndThreads (input : Listing) : Handler Bool :=
  listUnder (input.all || input.usesF) input.exp input.outcomes

def listObj (input : Listing) : Handler Bool := listUnder false input.exp input.outcomes

def listSrc (input : Listing) : Handler Bool := listUnder false input.exp input.outcomes

def listSrcFullPath (input : Listing) : Handler Bool := listUnder false input.exp input.outcomes

def listStatements (input : Listing) : Handler Bool := listUnder false input.exp input.outcomes

def listLoopStatements (input : Listing) : Handler Bool := listUnder false input.exp input.outcomes

def listLoops (input : Listing) : Handler Bool := listUnder false input.exp input.outcomes

def listFunctions (input : Listing) : Handler Bool := listUnder false input.exp input.outcomes

def listMangled (input : Listing) : Handler Bool := listUnder false input.exp input.outcomes

inductive Source
  | known (outcomes : List Outcome)
  | experiment (exp : Option EXPID) (outcomes : List Outcome)

def fromSource (source : Source) : Handler Bool := do
  match source with
  | .known outcomes =>
    calls outcomes
    return true
  | .experiment exp outcomes => listUnder false exp outcomes

def listTypes : Source → Handler Bool := fromSource

def listViews : Source → Handler Bool := fromSource

/-- Whether there was an error, when the experiment exists. The collectors that the command
names are made in a database of their own, in a `try` block. -/
def collectorsOf (source : Source) : Handler (Option Bool) := do
  match source with
  | .known outcomes =>
    let made ← caught (do calls outcomes; return true) false
    return some !made
  | .experiment exp outcomes =>
    if ← listUnder false exp outcomes then return some false else return none

def listMetrics (source : Source) (later : List Outcome) : Handler Bool := do
  match ← collectorsOf source with
  | none => return false
  | some true => return true
  | some false =>
    calls later
    return false

def listParams : Source → List Outcome → Handler Bool := listMetrics

def listMPICategories (source : Source) : Handler Bool := do
  match ← collectorsOf source with
  | none => return false
  | some _ => return true

def listStatusOf (input : EXPID × Outcome) : Handler Bool := do
  determineStatus input.1 input.2
  return true

def listStatus : Selected (EXPID × Outcome) → Handler Bool := forSelected listStatusOf

def listWallTime (input : Option Report) : Handler Bool := do
  match input with
  | none => return false
  | some input => report input

def listComponents : Selected Report → Handler Bool
  | .all experiments => forSelected reportStatus (.all experiments)
  | .specified exp => forSelected reportComponents (.specified exp)

/-- A custom view, with the experiment it is about and the calls that count the ranks and the
threads there. -/
structure CustomView where
  exp : Option EXPID
  ranks : List Outcome
  threads : List Outcome

def customViewInfo (view : CustomView) : Handler Bool := do
  match view.exp with
  | none => return true
  | some exp =>
    getNumber exp view.ranks
    getNumber exp view.threads
    return true

def cvInfo : List CustomView → Handler Bool := forEach customViewInfo

def ExpTypes.Linked (types : ExpTypes) : Prop :=
  AllReturn types.collectors ∧ !types.offline ∧ AllReturn types.threads ∧ !types.failed

def ExpTypes.Throws (types : ExpTypes) : Prop := types.Linked ∧ ¬ AllReturn types.link

def ExpTypes.Succeeds (types : ExpTypes) : Prop :=
  AllReturn types.collectors ∧
    (types.offline ∨ (AllReturn types.threads ∧ !types.failed ∧ AllReturn types.link))

def Report.Releases (input : Report) : Prop := input.getThreads = .returns

def Report.Succeeds (input : Report) : Prop := AllReturn input.calls

def Destroy.Releases (input : Destroy) : Prop :=
  input.getThreads = .returns ∧ (input.killing = some .succeeds → AllReturn input.polls)

def Destroy.Succeeds (input : Destroy) : Prop :=
  input.killing = none ∨ input.killing = some .succeeds

def Start.Releases (input : Start) : Prop :=
  input.running = some .succeeds → AllReturn input.polls

def Start.Succeeds (input : Start) : Prop :=
  input.running = none ∨ (input.running = some .succeeds ∧ AllReturn input.annotation)

def Rerun.Named (input : Rerun) : Prop := ∀ copy ∈ input.saveCopy, AllReturn copy.1

def Rerun.Releases (input : Rerun) : Prop :=
  input.Named → (∀ copy ∈ input.saveCopy, copy.2 = .returns) ∧ input.prepareToRerun = .returns

def Execute.Prepared (input : Execute) : Prop :=
  !input.inError ∧ AllReturn input.before ∧ (∀ rerun ∈ input.rerun, rerun.Named) ∧ AllReturn input.rerunCount

def Execute.Releases (input : Execute) : Prop :=
  input.getThreads = .returns ∧
    if input.offline then AllReturn input.offlineCalls
    else input.hasFW ∧
      (!input.inError → AllReturn input.before → ∀ rerun ∈ input.rerun, rerun.Releases) ∧
      (input.Prepared → input.starting.Releases)

def Execute.Succeeds (input : Execute) : Prop :=
  input.offline ∨ (input.Prepared ∧ input.starting.Succeeds)

def Continue.Releases (input : Continue) : Prop :=
  input.getThreads = .returns ∧ (!input.refused → input.starting.Releases)

def Continue.Succeeds (input : Continue) : Prop := !input.refused ∧ input.starting.Succeeds

def Collectors.Known : Collectors → Prop
  | specified _ => True
  | every getCollectors _ => getCollectors = .returns

def ViewType.Releases : ViewType → Prop
  | listed views => ForEach (· ≠ .throws) (· = .succeeds) views
  | unspecified hasFW getCollectors ofCollectors => hasFW →
      getCollectors = .returns ∧ (ofCollectors ≠ [] →
        (∀ collector ∈ ofCollectors, collector.1 = .returns ∧ collector.2 ≠ some .throws) ∧
          ∃ collector ∈ ofCollectors, collector.2.isSome)

def Source.Releases : Source → Prop
  | known _ => True
  | experiment exp outcomes => exp.isSome → AllReturn outcomes

def Listing.Releases (input : Listing) (refused : Bool) : Prop :=
  !refused → input.exp.isSome → AllReturn input.outcomes

def CustomView.Releases (view : CustomView) : Prop :=
  view.exp.isSome → AllReturn view.ranks ∧ AllReturn view.threads

def Selected.Holds {Item : Type} (holds goesOn : Item → Prop) : Selected Item → Prop
  | all items => ForEach holds goesOn items
  | specified item => ∀ found ∈ item, holds found

/-- The handlers that reserve experiments, with their arguments and the outcomes of their
calls. -/
inductive Command
  | expAttach (exp : Option EXPID) (types : ExpTypes)
  | expDetach (exp : Option EXPID) (types : ExpTypes)
  | expCreate (exp : Option EXPID) (types : ExpTypes)
  | expClose (experiments : Selected Destroy)
  | expGo (experiments : Selected Execute)
  | expCont (experiments : Selected Continue)
  | expPause (experiments : Selected Continue)
  | expSave (exp : Option EXPID) (fileName : Bool) (saveDB : Outcome)
  | expSetArgs (exp : Option EXPID) (outcomes : List Outcome) (failed : Bool)
  | expSetParam (exp : Option EXPID) (isParam : Bool) (collectors : Collectors) (failed : Bool)
  | expStatus (experiments : Selected Report)
  | expView (exp : Option EXPID) (polls : Option (List Outcome)) (viewType : ViewType)
  | listHosts (input : Listing)
  | listPids (input : Listing)
  | listRanks (input : Listing)
  | listNumberOfRanks (input : Listing)
  | getListOfRanks (input : Listing)
  | listThreads (input : Listing)
  | listNumberOfThreads (input : Listing)
  | listPidsAndThreads (input : Listing)
  | listRanksAndPids (input : Listing)
  | listRanksAndThreads (input : Listing)
  | listObj (input : Listing)
  | listSrc (input : Listing)
  | listSrcFullPath (input : Listing)
  | listStatements (input : Listing)
  | listLoopStatements (input : Listing)
  | listLoops (input : Listing)
  | listFunctions (input : Listing)
  | listMangled (input : Listing)
  | listTypes (source : Source)
  | listViews (source : Source)
  | listMetrics (source : Source) (later : List Outcome)
  | listParams (source : Source) (later : List Outcome)
  | listMPICategories (source : Source)
  | listStatus (experiments : Selected (EXPID × Outcome))
  | listWallTime (input : Option Report)
  | listComponents (experiments : Selected Report)
  | cvInfo (views : List CustomView)

def Command.execute : Command → Handler Bool
  | expAttach exp types => CmdExecution.expAttach exp types
  | expDetach exp types => CmdExecution.expDetach exp types
  | expCreate exp types => CmdExecution.expCreate exp types
  | expClose experiments => CmdExecution.expClose experiments
  | expGo experiments => CmdExecution.expGo experiments
  | expCont experiments => CmdExecution.expCont experiments
  | expPause experiments => CmdExecution.expPause experiments
  | expSave exp fileName saveDB => CmdExecution.expSave exp fileName saveDB
  | expSetArgs exp outcomes failed => CmdExecution.expSetArgs exp outcomes failed
  | expSetParam exp isParam collectors failed =>
    CmdExecution.expSetParam exp isParam collectors failed
  | expStatus experiments => CmdExecution.expStatus experiments
  | expView exp polls viewType => CmdExecution.expView exp polls viewType
  | listHosts input => CmdExecution.listHosts input
  | listPids input => CmdExecution.listPids input
  | listRanks input => CmdExecution.listRanks input
  | listNumberOfRanks input => CmdExecution.listNumberOfRanks input
  | getListOfRanks input => CmdExecution.getListOfRanks input
  | listThreads input => CmdExecution.listThreads input
  | listNumberOfThreads input => CmdExecution.listNumberOfThreads input
  | listPidsAndThreads input => CmdExecution.listPidsAndThreads input
  | listRanksAndPids input => CmdExecution.listRanksAndPids input
  | listRanksAndThreads input => CmdExecution.listRanksAndThreads input
  | listObj input => CmdExecution.listObj input
  | listSrc input => CmdExecution.listSrc input
  | listSrcFullPath input => CmdExecution.listSrcFullPath input
  | listStatements input => CmdExecution.listStatements input
  | listLoopStatements input => CmdExecution.listLoopStatements input
  | listLoops input => CmdExecution.listLoops input
  | listFunctions input => CmdExecution.listFunctions input
  | listMangled input => CmdExecution.listMangled input
  | listTypes source => CmdExecution.listTypes source
  | listViews source => CmdExecution.listViews source
  | listMetrics source later => CmdExecution.listMetrics source later
  | listParams source later => CmdExecution.listParams source later
  | listMPICategories source => CmdExecution.listMPICategories source
  | listStatus experiments => CmdExecution.listStatus experiments
  | listWallTime input => CmdExecution.listWallTime input
  | listComponents experiments => CmdExecution.listComponents experiments
  | cvInfo views => CmdExecution.cvInfo views

def Command.Releases : Command → Prop
  | expAttach exp types => exp.isSome → ¬ types.Throws
  | expDetach exp types => exp.isSome → types.Succeeds
  | expCreate exp types => exp.isSome → ¬ types.Throws
  | expClose experiments => experiments.Holds Destroy.Releases Destroy.Succeeds
  | expGo experiments => experiments.Holds Execute.Releases Execute.Succeeds
  | expCont experiments => experiments.Holds Continue.Releases Continue.Succeeds
  | expPause experiments => experiments.Holds Continue.Releases Continue.Succeeds
  | expSave exp fileName saveDB => exp.isSome → fileName → saveDB = .returns
  | expSetArgs exp outcomes _ => exp.isSome → AllReturn outcomes
  | expSetParam exp isParam collectors _ => exp.isSome → isParam → collectors.Known
  | expStatus experiments => experiments.Holds Report.Releases Report.Succeeds
  | expView exp polls viewType => exp.isSome → AllReturn (polls.getD []) ∧ viewType.Releases
  | listHosts input => input.Releases input.all
  | listPids input => input.Releases (input.all || input.usesF)
  | listRanks input => input.Releases (input.all || input.usesF)
  | listNumberOfRanks input => input.Releases (input.all || input.usesF)
  | getListOfRanks input => input.Releases (input.all || input.usesF)
  | listThreads input => input.Releases (input.all || input.usesF)
  | listNumberOfThreads input => input.Releases (input.all || input.usesF)
  | listPidsAndThreads input => input.Releases (input.all || input.usesF)
  | listRanksAndPids input => input.Releases (input.all || input.usesF)
  | listRanksAndThreads input => input.Releases (input.all || input.usesF)
  | listObj input => input.Releases false
  | listSrc input => input.Releases false
  | listSrcFullPath input => input.Releases false
  | listStatements input => input.Releases false
  | listLoopStatements input => input.Releases false
  | listLoops input => input.Releases false
  | listFunctions input => input.Releases false
  | listMangled input => input.Releases false
  | listTypes source => source.Releases
  | listViews source => source.Releases
  | listMetrics source _ => source.Releases
  | listParams source _ => source.Releases
  | listMPICategories source => source.Releases
  | listStatus experiments => experiments.Holds (fun input => input.2 = .returns) fun _ => True
  | listWallTime input => ∀ found ∈ input, found.Releases
  | listComponents experiments => experiments.Holds Report.Releases Report.Succeeds
  | cvInfo views => ForEach CustomView.Releases (fun _ => True) views

end OpenSpeedShop.CmdExecution
