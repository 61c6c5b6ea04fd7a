import OpenSpeedShop.Library.Runs

/-!
The list of the open experiments, and the commands that create, restore, focus and close them. Commands
wait for the earlier ones, so a command is one step.
-/

namespace OpenSpeedShop.ExperimentList

abbrev EXPID := Nat

abbrev CMDWID := Nat

/-- The objects are numbered in the order in which they are constructed: the number
stands for the object's address. -/
structure ExperimentObject where
  object : Nat
  expID : EXPID
  isInstrumentorOffline : Bool
  deriving DecidableEq

/-- The last field is the history: the experiments opened and neither closed nor restored
over, under the ids that they were given. -/
structure Registry where
  list : List ExperimentObject
  sequenceNumber : EXPID
  constructed : Nat
  opened : List (Nat × EXPID)
  deriving DecidableEq

structure State extends Registry where
  windows : List (CMDWID × Option EXPID)
  lastReadWindow : CMDWID
  deriving DecidableEq

def initial (windows : List CMDWID) (lastReadWindow : CMDWID) : State where
  list := []
  sequenceNumber := 0
  constructed := 0
  opened := []
  windows := windows.map fun window => (window, none)
  lastReadWindow := lastReadWindow

def Registry.findExperimentObject (registry : Registry) (id : EXPID) : Option ExperimentObject :=
  if id > 0 then registry.list.find? fun exp => id = exp.expID else none

def State.windowID (state : State) (window : CMDWID) : CMDWID :=
  if window = 0 then state.lastReadWindow else window

def State.setFocus (state : State) (window : CMDWID) (id : EXPID) : State :=
  { state with
    windows := state.windows.map fun entry =>
      if entry.1 = state.windowID window then (entry.1, some id) else entry }

def State.lastExisting (state : State) : EXPID → EXPID
  | 0 => 0
  | f + 1 => if (state.findExperimentObject (f + 1)).isSome then f + 1 else state.lastExisting f

def State.experimentFocus (state : State) (window : CMDWID) : EXPID × State :=
  match state.windows.lookup (state.windowID window) with
  | none => (0, state)
  | some (some f) => (f, state)
  | some none =>
    let f := state.lastExisting state.sequenceNumber
    (f, if f > 0 then state.setFocus window f else state)

def State.experimentPurgeFocus (state : State) (id : EXPID) : State :=
  { state with
    windows := state.windows.map fun entry =>
      if entry.2 = some id then (entry.1, some 0) else entry }

def State.findSpecifiedExperiment (state : State) (window : CMDWID) (expId : Option EXPID) :
    Option ExperimentObject × State :=
  let id := expId.getD 0
  if id = 0 then
    let (focused, state) := state.experimentFocus window
    (state.findExperimentObject focused, state)
  else (state.findExperimentObject id, state)

/-- The database that a new object is to use, and what the framework does with it: whether
it can be created, where it has to be, and whether it can be opened. -/
inductive DataBase
  | generated (created opens : Bool)
  | named (opens : Bool)
  deriving DecidableEq

def DataBase.created : DataBase → Bool
  | generated created _ => created
  | named _ => true

def DataBase.opens : DataBase → Bool
  | generated _ opens => opens
  | named opens => opens

/-- The new object, with whether it has an experiment of the framework. There is no result
when the assertion fails. -/
def State.construct (state : State) (dataBase : DataBase) (preferredID : EXPID) :
    Option (ExperimentObject × Bool × State) :=
  if preferredID ≠ 0 ∧ ¬ state.sequenceNumber ≤ preferredID then none
  else
    let expID := if preferredID ≠ 0 then preferredID else state.sequenceNumber + 1
    let exp : ExperimentObject :=
      { object := state.constructed
        expID := if dataBase.created then expID else 0
        isInstrumentorOffline := false }
    let state := { state with sequenceNumber := expID, constructed := state.constructed + 1 }
    if dataBase.opens then
      let others := if preferredID = 0 then state.list else state.list.dropLast
      some (exp, true, { state with list := exp :: others })
    else some ({ exp with expID := 0 }, false, state)

def State.setIsInstrumentorOffline (state : State) (object : Nat) (flag : Bool) : State :=
  { state with
    list := state.list.map fun exp =>
      if exp.object = object then { exp with isInstrumentorOffline := flag } else exp }

def State.delete (state : State) (object : Nat) : State :=
  { state with
    list := state.list.filter fun exp => exp.object ≠ object
    opened := state.opened.filter fun entry => entry.1 ≠ object }

inductive StartMode
  | offline | online | batch | gui
  deriving DecidableEq

/-- The last instrumentor type that is recognized, and otherwise the mode that the tool was
started in. -/
def isOfflineCmd (mode : StartMode) (instrumentors : List String) : Bool :=
  let recognized := instrumentors.filterMap fun S =>
    if S.toLower = "offline" then some true
    else if S.toLower = "online" then some false
    else none
  recognized.getLast?.getD (mode ≠ .online && mode ≠ .batch)

/-- What the framework gives is an input: whether the database can be created and opened, targets and
collectors be linked, and which experiments have a thread that cannot be terminated. -/
inductive Command
  | expCreate (window : CMDWID) (mode : StartMode) (instrumentors : List String)
      (created opens processed : Bool)
  | expRestore (window : CMDWID) (expId : Option EXPID) (fileName opens : Bool)
  | expFocus (window : CMDWID) (expId : Option EXPID)
  | expClose (window : CMDWID) (expId : Option EXPID) (all kill : Bool) (killFails : Nat → Bool)
  | openWindow (window : CMDWID)
  | readFrom (window : CMDWID)

def State.expCreate (state : State) (window : CMDWID) (mode : StartMode)
    (instrumentors : List String) (created opens processed : Bool) : Option State := do
  let (exp, hasFW, state) ← state.construct (.generated created opens) 0
  if !hasFW then return state
  let state := state.setIsInstrumentorOffline exp.object (isOfflineCmd mode instrumentors)
  if !processed then return state.delete exp.object
  let state := state.setFocus window exp.expID
  return { state with opened := (exp.object, exp.expID) :: state.opened }

def State.restoredOver (state : State) (window : CMDWID) (expId : Option EXPID) : Option ExperimentObject :=
  (state.findSpecifiedExperiment window expId).1.filter ExperimentObject.isInstrumentorOffline

def State.expRestore (state : State) (window : CMDWID) (expId : Option EXPID)
    (fileName opens : Bool) : Option State := do
  if !fileName then return state
  let original := state.restoredOver window expId
  let (_, state) := state.findSpecifiedExperiment window expId
  let preferredEXP := (original.map ExperimentObject.expID).getD 0
  let (exp, _, state) ← state.construct (.named opens) preferredEXP
  if exp.expID = 0 then return state
  let state := state.setFocus window exp.expID
  let kept := match original with
    | some replaced => state.opened.filter fun entry => entry.1 ≠ replaced.object
    | none => state.opened
  return { state with opened := (exp.object, exp.expID) :: kept }

def State.expFocus (state : State) (window : CMDWID) (expId : Option EXPID) : State :=
  let (id, state) := match expId with
    | some id => (id, state)
    | none => state.experimentFocus window
  let (found, checked) := state.findSpecifiedExperiment window expId
  if id ≠ 0 then
    if found.isNone then checked else checked.setFocus window id
  else state.setFocus window id

/-- Fails, and leaves the experiment as it is, when one of its threads is to be killed and
cannot be. -/
def State.destroyExperiment (state : State) (kill : Bool) (killFails : Nat → Bool)
    (exp : ExperimentObject) : Bool × State :=
  if kill && killFails exp.object then (false, state)
  else (true, (state.experimentPurgeFocus exp.expID).delete exp.object)

def State.destroyAll (kill : Bool) (killFails : Nat → Bool) : List ExperimentObject → State → State
  | [], state => state
  | exp :: rest, state =>
    match state.destroyExperiment kill killFails exp with
    | (true, next) => State.destroyAll kill killFails rest next
    | (false, next) => next

def State.expClose (state : State) (window : CMDWID) (expId : Option EXPID) (all kill : Bool)
    (killFails : Nat → Bool) : State :=
  if all then State.destroyAll kill killFails state.list state
  else
    match state.findSpecifiedExperiment window expId with
    | (some exp, state) => (state.destroyExperiment kill killFails exp).2
    | (none, state) => state

def step (state : State) : Command → Option State
  | .expCreate window mode instrumentors created opens processed =>
    state.expCreate window mode instrumentors created opens processed
  | .expRestore window expId fileName opens => state.expRestore window expId fileName opens
  | .expFocus window expId => some (state.expFocus window expId)
  | .expClose window expId all kill killFails =>
    some (state.expClose window expId all kill killFails)
  | .openWindow window =>
    some { state with windows := state.windows ++ [(window, none)] }
  | .readFrom window => some { state with lastReadWindow := window }

def Registry.IdsDistinct (registry : Registry) : Prop :=
  (registry.list.map ExperimentObject.expID).Nodup

instance (registry : Registry) : Decidable registry.IdsDistinct :=
  inferInstanceAs (Decidable (List.Nodup _))

def Registry.OpenedFound (registry : Registry) : Prop :=
  ∀ object id, (object, id) ∈ registry.opened →
    ∃ exp, registry.findExperimentObject id = some exp ∧ exp.object = object

/-- A restore adds a new entry, which takes the place of the offline experiment that it is
restored over and of no other. -/
def Command.RestoresOnly (state : State) (command : Command) (next : State) : Prop :=
  match command with
  | .expRestore window expId true true =>
    ∃ exp, exp.object = state.constructed ∧
      next.list = exp :: state.list.filter fun entry => state.restoredOver window expId ≠ some entry
  | .expRestore _ _ _ _ => next.list = state.list
  | _ => True

def Command.Correct (state : State) (command : Command) : Prop :=
  ∃ next, step state command = some next ∧ next.IdsDistinct ∧ next.OpenedFound ∧
    command.RestoresOnly state next

/-- The offline experiment that is restored over has the last id, and no other one is open when
the new one takes its place; no database that could not be created is opened for one that is kept.
-/
def Command.InTurn (state : State) : Command → Prop
  | .expCreate _ _ _ created opens processed => created ∨ ¬ opens ∨ ¬ processed
  | .expRestore window expId fileName opens =>
    ∀ original, fileName → state.restoredOver window expId = some original →
      original.expID = state.sequenceNumber ∧ (opens → state.list = [original])
  | _ => True

end OpenSpeedShop.ExperimentList
