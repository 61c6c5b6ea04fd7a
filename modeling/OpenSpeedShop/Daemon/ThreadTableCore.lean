import OpenSpeedShop.Library.EntryMap
import OpenSpeedShop.Library.Runs
import Mathlib.Data.List.Dedup

/-!
The thread table of a daemon: which Dyninst threads are known under which names, and the requests and
events that change it.
-/

namespace OpenSpeedShop.Daemon

structure ThreadName where
  experiment : Int
  host : String
  pid : Int
  tid : Option UInt64
deriving DecidableEq

inductive ThreadState
  | disconnected
  | connecting
  | nonexistent
  | running
  | suspended
  | terminated
deriving DecidableEq

structure BPatchThread where
  ptr : Nat
  tid : UInt64
deriving DecidableEq

structure BPatchProcess where
  pid : Int
  threads : List BPatchThread
  isMultithreadCapable : Bool
  nonempty : threads ≠ []
deriving DecidableEq

structure Network where
  localHost : String
  getCanonicalName : String → String

def Network.canonicalLocalHost (network : Network) : String :=
  network.getCanonicalName network.localHost

def ThreadName.ofThread (network : Network) (experiment : Int) (process : BPatchProcess)
    (thread : BPatchThread) : ThreadName where
  experiment := experiment
  host := network.canonicalLocalHost
  pid := process.pid
  tid := if process.isMultithreadCapable then some thread.tid else none

structure ThreadTable where
  dmNameToPtr : List (ThreadName × Nat)
  dmPtrToNames : List (Nat × ThreadName)
  dmPtrToPipes : List (Nat × Option Nat)
  dmPtrToState : List (Nat × ThreadState)
deriving DecidableEq

namespace ThreadTable

open EntryMap (lookup)

def empty : ThreadTable := ⟨[], [], [], []⟩

def addThread (thread : ThreadName) (ptr : Nat) (pipes : Option Nat) (table : ThreadTable) :
    Option ThreadTable :=
  if lookup thread table.dmNameToPtr = none ∧ (ptr, thread) ∉ table.dmPtrToNames ∧
      (lookup ptr table.dmPtrToPipes = none ∨ lookup ptr table.dmPtrToPipes = some pipes) ∧
      lookup ptr table.dmPtrToState = none then
    some {
      dmNameToPtr := table.dmNameToPtr ++ [(thread, ptr)]
      dmPtrToNames := table.dmPtrToNames ++ [(ptr, thread)]
      dmPtrToPipes :=
        if lookup ptr table.dmPtrToPipes = none then table.dmPtrToPipes ++ [(ptr, pipes)]
        else table.dmPtrToPipes
      dmPtrToState := table.dmPtrToState ++ [(ptr, .disconnected)] }
  else none

def removeThread (thread : ThreadName) (ptr : Nat) (table : ThreadTable) : Option ThreadTable :=
  if lookup thread table.dmNameToPtr ≠ none ∧ (ptr, thread) ∈ table.dmPtrToNames ∧
      lookup ptr table.dmPtrToPipes ≠ none ∧ lookup ptr table.dmPtrToState ≠ none then
    let dmPtrToNames := table.dmPtrToNames.erase (ptr, thread)
    some {
      dmNameToPtr := table.dmNameToPtr.filter fun entry => entry.1 ≠ thread
      dmPtrToNames := dmPtrToNames
      dmPtrToPipes :=
        if (dmPtrToNames.filter fun entry => entry.1 = ptr).length = 0 then
          table.dmPtrToPipes.filter fun entry => entry.1 ≠ ptr
        else table.dmPtrToPipes
      dmPtrToState := table.dmPtrToState.filter fun entry => entry.1 ≠ ptr }
  else none

def getPtr (table : ThreadTable) (thread : ThreadName) : Option Nat :=
  lookup thread table.dmNameToPtr

def getNames (table : ThreadTable) (ptr : Nat) : List ThreadName :=
  (table.dmPtrToNames.filter fun entry => entry.1 = ptr).map Prod.snd

def getExperiments (network : Network) (table : ThreadTable) (process : BPatchProcess) : List Int :=
  ((table.dmNameToPtr.filter fun entry => entry.1.host = network.canonicalLocalHost &&
    entry.1.pid = process.pid).map fun entry => entry.1.experiment).dedup

def setThreadState (state : ThreadState) (table : ThreadTable) (thread : ThreadName) :
    ThreadTable :=
  match table.getPtr thread with
  | none => table
  | some ptr => { table with dmPtrToState := table.dmPtrToState.map fun entry =>
    if entry.1 = ptr then (ptr, state) else entry }

def threadsStateChanged (table : ThreadTable) (threads : List ThreadName) (state : ThreadState) :
    ThreadTable :=
  threads.foldl (setThreadState state) table

def getPtrDirectly (network : Network) (processes : List BPatchProcess) (thread : ThreadName) :
    Option (BPatchProcess × BPatchThread) :=
  if network.getCanonicalName thread.host ≠ network.canonicalLocalHost then none
  else
    (processes.flatMap fun process =>
      if process.pid = thread.pid then process.threads.map fun other => (process, other)
      else []).find? fun found => thread.tid = none || thread.tid = some found.2.tid

end ThreadTable

/-- A thread to be attached: Dyninst's active processes when it is its turn, and what
attaching to its process would give. -/
structure Request where
  thread : ThreadName
  processes : List BPatchProcess
  attached : Option BPatchProcess

def filterByLocalHost (network : Network) (requests : List Request) : List Request :=
  requests.filter fun request =>
    network.getCanonicalName request.thread.host = network.canonicalLocalHost

def Request.targets (network : Network) (request : Request) : List (ThreadName × Nat) :=
  match ThreadTable.getPtrDirectly network request.processes request.thread with
  | some (process, thread) =>
    [(ThreadName.ofThread network request.thread.experiment process thread, thread.ptr)]
  | none =>
    match request.attached with
    | none => []
    | some process => process.threads.map fun thread =>
      (ThreadName.ofThread network request.thread.experiment process thread, thread.ptr)

def addThreads (targets : List (ThreadName × Nat)) (table : ThreadTable) : Option ThreadTable :=
  targets.foldlM (fun table target => table.addThread target.1 target.2 none) table

def attachThread (network : Network) (state : ThreadTable × List ThreadName) (request : Request) :
    Option (ThreadTable × List ThreadName) :=
  if (state.1.getPtr request.thread).isSome then some state
  else do
    let table ← addThreads (request.targets network) state.1
    return (table, state.2 ++ (request.targets network).map Prod.fst)

def attachToThreads (network : Network) (requests : List Request) (table : ThreadTable) :
    Option ThreadTable := do
  let (table, threadsAttached) ← (filterByLocalHost network requests).foldlM (attachThread network) (table, [])
  return table.threadsStateChanged threadsAttached .suspended

def inExperiments (network : Network) (experiments : List Int) (process : BPatchProcess)
    (threads : List BPatchThread) : List (ThreadName × Nat) :=
  threads.flatMap fun thread => experiments.map fun experiment =>
    (ThreadName.ofThread network experiment process thread, thread.ptr)

def postFork (network : Network) (isInMpiStartup : Bool) (parent child : BPatchProcess)
    (table : ThreadTable) : Option ThreadTable :=
  if isInMpiStartup then some table
  else do
    let threadsForked := inExperiments network (table.getExperiments network parent) child child.threads
    let table ← addThreads threadsForked table
    return table.threadsStateChanged (threadsForked.map Prod.fst) .running

def threadCreate (network : Network) (isInMpiStartup : Bool) (process : BPatchProcess)
    (thread : BPatchThread) (table : ThreadTable) : Option ThreadTable :=
  if isInMpiStartup then some table
  else if table.getNames thread.ptr ≠ [] then some table
  else do
    let threadsCreated := inExperiments network (table.getExperiments network process) process [thread]
    let table ← addThreads threadsCreated table
    return table.threadsStateChanged (threadsCreated.map Prod.fst) .running

def threadDestroy (thread : BPatchThread) (table : ThreadTable) : ThreadTable :=
  table.threadsStateChanged (table.getNames thread.ptr) .terminated

inductive Call
  | attachToThreads (requests : List Request)
  | postFork (isInMpiStartup : Bool) (parent child : BPatchProcess)
  | threadCreate (isInMpiStartup : Bool) (process : BPatchProcess) (thread : BPatchThread)
  | threadDestroy (thread : BPatchThread)
  | removeThread (thread : ThreadName) (ptr : Nat)

def Call.step (network : Network) (table : ThreadTable) : Call → Option ThreadTable
  | .attachToThreads requests => Daemon.attachToThreads network requests table
  | .postFork isInMpiStartup parent child =>
    Daemon.postFork network isInMpiStartup parent child table
  | .threadCreate isInMpiStartup process thread =>
    Daemon.threadCreate network isInMpiStartup process thread table
  | .threadDestroy thread => some (Daemon.threadDestroy thread table)
  | .removeThread thread ptr => table.removeThread thread ptr

end OpenSpeedShop.Daemon
