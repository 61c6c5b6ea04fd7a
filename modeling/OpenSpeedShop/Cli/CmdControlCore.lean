import OpenSpeedShop.Library.Runs

/-!
The input thread that queues commands and the threads that execute them. A step is a section under the
queue's lock, or the work between two. A command does anything, and may let the next one start.
-/

namespace OpenSpeedShop.CmdControl

inductive CmdType
  | expGo | record | exit | playback | other
  deriving DecidableEq

structure Command where
  type : CmdType
  neededByPython : Bool
  deriving DecidableEq

/-- A thread executes the command with the given number, and remembers how many
commands had been taken from the queue then (`this_cmd_is`). -/
inductive Thread
  | created
  | waiting
  | awake
  | picked (cmd thisCmdIs : Nat)
  | executing (cmd thisCmdIs : Nat)
  | executed (cmd thisCmdIs : Nat)
  | terminating (cmd thisCmdIs : Nat)
  | leaving
  | exited
  deriving DecidableEq

inductive Main
  | free
  | waiting (cmd : Nat)
  | returning (cmd : Nat)
  deriving DecidableEq

/-- Commands are numbered in the order of the calls. The last five fields are the history: the
commands taken, begun, completed, aborted, and returned for by `SS_Execute_Cmd`. -/
structure State where
  isOfflineCmd : Bool
  maxAsyncCommands : Nat
  commands : List Command
  dispatch : List Nat
  readyForNextCmd : Bool
  extFree : Nat
  extAllocated : Nat
  cmdsExecuted : Nat
  mainWaiting : Bool
  mainWaitingCount : Nat
  shutDown : Bool
  main : Main
  threads : List Thread
  picked : List Nat
  begun : List Nat
  completed : List Nat
  aborted : List Nat
  returned : List Nat
  deriving DecidableEq

def initial (isOfflineCmd : Bool) (maxAsyncCommands : Nat) : State :=
  ⟨isOfflineCmd, maxAsyncCommands, [], [], true, 0, 0, 0, false, 0, false, .free, [], [], [], [], [], []⟩

def State.setThread (state : State) (thread : Nat) (value : Thread) : State :=
  { state with threads := state.threads.set thread value }

/-- `pthread_cond_signal(&Cmd_EXT_Dispatch)` wakes one of the waiting threads, if there
are any. -/
def signal (woken : Option Nat) (state : State) : Option State :=
  match woken with
  | some thread =>
    if state.threads[thread]? = some .waiting then some (state.setThread thread .awake) else none
  | none => if Thread.waiting ∈ state.threads then none else some state

def safeToDoNextCmd (woken : Option Nat) (state : State) : Option State :=
  let state := { state with readyForNextCmd := true }
  if state.dispatch ≠ [] ∧ state.extFree ≠ 0 then signal woken state else some state

/-- The loop that looks for work: the thread takes the first command of the queue, or
releases the lock and waits. -/
def look (thread : Nat) (state : State) : State :=
  match state.readyForNextCmd, state.dispatch with
  | true, cmd :: rest =>
    { state with
      dispatch := rest
      cmdsExecuted := state.cmdsExecuted + 1
      readyForNextCmd := false
      picked := state.picked ++ [cmd]
      threads := state.threads.set thread (.picked cmd (state.cmdsExecuted + 1)) }
  | _, _ => { state.setThread thread .waiting with extFree := state.extFree + 1 }

def releaseMain (state : State) : State :=
  { state with
    mainWaiting := false
    main := match state.main with
      | .waiting cmd => .returning cmd
      | main => main }

def broadcast (state : State) : State :=
  if state.extFree ≠ 0 then
    { state with threads := state.threads.map fun other =>
        if other = .waiting then .awake else other }
  else state

def shutDownThread (thread cmd thisCmdIs : Nat) (state : State) : State :=
  if thisCmdIs = state.cmdsExecuted then state.setThread thread (.terminating cmd thisCmdIs)
  else { state.setThread thread .exited with extAllocated := state.extAllocated - 1 }

def wakeMain (state : State) : State :=
  if state.mainWaiting ∧ state.dispatch.length ≤ state.mainWaitingCount then releaseMain state
  else state

def readyAfter (thisCmdIs : Nat) (state : State) : State :=
  { state with readyForNextCmd := state.readyForNextCmd || thisCmdIs = state.cmdsExecuted }

def finish (thread cmd thisCmdIs : Nat) (state : State) : State :=
  if state.shutDown then shutDownThread thread cmd thisCmdIs (broadcast state)
  else look thread (readyAfter thisCmdIs (wakeMain state))

def extStep (thread : Nat) (state : State) : Option State :=
  match state.threads[thread]? with
  | some .created => some (look thread state)
  | some .awake =>
    let state := { state with extFree := state.extFree - 1 }
    if state.shutDown then
      some { state.setThread thread .exited with extAllocated := state.extAllocated - 1 }
    else some (look thread state)
  | some (.picked cmd thisCmdIs) =>
    -- A command that was aborted before it could begin is passed over.
    if cmd ∈ state.aborted then some (state.setThread thread (.executed cmd thisCmdIs))
    else some { state.setThread thread (.executing cmd thisCmdIs) with
      begun := state.begun ++ [cmd] }
  | some (.executing cmd thisCmdIs) =>
    some { state.setThread thread (.executed cmd thisCmdIs) with
      completed := state.completed ++ [cmd] }
  | some (.executed cmd thisCmdIs) => some (finish thread cmd thisCmdIs state)
  | some (.terminating _ _) =>
    -- The wait for the others to terminate, and the release after it.
    if state.extAllocated ≤ 2 then
      let state := if state.mainWaiting then releaseMain state else state
      some (state.setThread thread .leaving)
    else none
  | some .leaving =>
    some { state.setThread thread .exited with extAllocated := state.extAllocated - 1 }
  | _ => none

def serializeExecution (isOfflineCmd : Bool) (command : Command) : Bool :=
  command.neededByPython || (command.type = .expGo && isOfflineCmd)

inductive Creation
  | success | failure | badAlloc
  deriving DecidableEq

def createThread (cmd : Nat) (creation : Creation) (state : State) : State :=
  match creation with
  | .success =>
    { state with extAllocated := state.extAllocated + 1, threads := state.threads ++ [.created] }
  | .failure => { state with aborted := state.aborted ++ [cmd], shutDown := true }
  | .badAlloc =>
    if state.extAllocated = 0 then
      { state with aborted := state.aborted ++ [cmd], shutDown := true }
    else { state with maxAsyncCommands := state.extAllocated }

def wakeUp (cmd : Nat) (woken : Option Nat) (creation : Creation) (state : State) : Option State :=
  if !state.readyForNextCmd then some state
  else if state.extFree ≠ 0 then signal woken state
  else if state.extAllocated < state.maxAsyncCommands then some (createThread cmd creation state)
  else some state

def waitForMain (cmd count : Nat) (state : State) : State :=
  { state with mainWaiting := true, mainWaitingCount := count, main := .waiting cmd }

def returnMain (cmd : Nat) (state : State) : State :=
  { state with main := .free, returned := state.returned ++ [cmd] }

def executeCmd (command : Command) (woken : Option Nat) (creation : Creation) (state : State) : Option State :=
  let cmd := state.commands.length
  let state := { state with commands := state.commands ++ [command] }
  if state.shutDown then some (returnMain cmd state)
  else if command.type = .record then
    -- Executed by the input thread itself.
    some (returnMain cmd { state with completed := state.completed ++ [cmd] })
  else do
    let state ← wakeUp cmd woken creation { state with dispatch := state.dispatch ++ [cmd] }
    if serializeExecution state.isOfflineCmd command then return waitForMain cmd 0 state
    else if command.type = .exit then
      if state.shutDown then return returnMain cmd state else return waitForMain cmd 0 state
    else if command.type = .playback then return waitForMain cmd 0 state
    else if state.maxAsyncCommands * 2 < state.dispatch.length then
      return waitForMain cmd state.maxAsyncCommands state
    else return returnMain cmd state

def purgeDispatchQueue (state : State) : State :=
  { state with dispatch := [], aborted := state.aborted ++ state.dispatch }

inductive Input
  | executeCmd (command : Command) (woken : Option Nat) (creation : Creation)
  | mainReturns
  | ext (thread : Nat)
  | safeToDoNextCmd (thread : Nat) (woken : Option Nat)
  | purgeDispatchQueue
  | abort (cmd : Nat)
  | shutDown
  deriving DecidableEq

def step (state : State) : Input → Option State
  | .executeCmd command woken creation =>
    if state.main = .free then CmdControl.executeCmd command woken creation state else none
  | .mainReturns =>
    match state.main with
    | .returning cmd => some (returnMain cmd state)
    | _ => none
  | .ext thread => extStep thread state
  | .safeToDoNextCmd thread woken =>
    match state.threads[thread]? with
    | some (.executing _ _) => CmdControl.safeToDoNextCmd woken state
    | _ => none
  | .purgeDispatchQueue => some (CmdControl.purgeDispatchQueue state)
  | .abort cmd => some { state with aborted := state.aborted ++ [cmd] }
  | .shutDown => some { state with shutDown := true }

end OpenSpeedShop.CmdControl
