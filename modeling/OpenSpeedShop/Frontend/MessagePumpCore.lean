import OpenSpeedShop.Daemon.ThreadTableCore

/-!
The message pump of the front end, which the instrumentor starts when first needed and stops when the
last thread is released. What becomes of the network is part of the calls that may create it.
-/

namespace OpenSpeedShop.Frontend

open EntryMap (lookup)
open Daemon (ThreadState)

inductive MessageTag
  | attachedToThreads
  | createdProcess
  | globalIntegerValue
  | globalJobValue
  | globalStringValue
  | instrumented
  | loadedLinkedObject
  | reportError
  | stderr
  | stdout
  | symbolTable
  | threadsStateChanged
  | unloadedLinkedObject
  | performanceData
deriving DecidableEq

inductive MessageCallback
  | attachedToThreads
  | createdProcess
  | globalIntegerValue
  | globalJobValue
  | globalStringValue
  | instrumented
  | loadedLinkedObject
  | reportError
  | stdErr
  | stdOut
  | symbolTable
  | threadsStateChanged
  | unloadedLinkedObject
  | performanceData
deriving DecidableEq

def registrations : List (MessageTag × MessageCallback) :=
  [(.attachedToThreads, .attachedToThreads), (.createdProcess, .createdProcess),
    (.globalIntegerValue, .globalIntegerValue), (.globalJobValue, .globalJobValue),
    (.globalStringValue, .globalStringValue), (.instrumented, .instrumented),
    (.loadedLinkedObject, .loadedLinkedObject), (.reportError, .reportError),
    (.stderr, .stdErr), (.stdout, .stdOut), (.symbolTable, .symbolTable),
    (.threadsStateChanged, .threadsStateChanged),
    (.unloadedLinkedObject, .unloadedLinkedObject), (.performanceData, .performanceData)]

/-- Why a call is not carried out to its end: an assertion fails, or an object is used that
does not exist any more. -/
inductive Failure
  | threadTable
  | precondition
  | callbackTable
  | noMonitor
  | noNetwork
deriving DecidableEq

abbrev Result := Except Failure

inductive NetworkPointer
  | null
  | failed
  | live (endPoints : List String)
  | deleted
deriving DecidableEq

/-- What is shared by the instrumentor and the front end, with the number of times that the
pump was started and stopped. -/
structure MessagePump where
  isMRNetInitialized : Bool
  callbacks : List (MessageTag × MessageCallback)
  theNetwork : NetworkPointer
  monitorRunning : Bool
  starts : Nat
  stops : Nat
deriving DecidableEq

namespace MessagePump

def addCallback (callbacks : List (MessageTag × MessageCallback))
    (pair : MessageTag × MessageCallback) : Result (List (MessageTag × MessageCallback)) :=
  if pair ∈ callbacks then .error .callbackTable else .ok (callbacks ++ [pair])

def removeCallback (callbacks : List (MessageTag × MessageCallback))
    (pair : MessageTag × MessageCallback) : Result (List (MessageTag × MessageCallback)) :=
  if pair ∈ callbacks then .ok (callbacks.erase pair) else .error .callbackTable

def startMessagePump (network : Option (List String)) (pump : MessagePump) : MessagePump × Bool :=
  match network with
  | none => ({ pump with theNetwork := .failed }, true)
  | some endPoints => ({ pump with
      theNetwork := .live endPoints
      monitorRunning := true
      starts := pump.starts + 1 }, false)

def stopMessagePump (pump : MessagePump) : Result MessagePump :=
  if pump.monitorRunning then
    .ok { pump with
      theNetwork := .deleted
      monitorRunning := false
      stops := pump.stops + 1 }
  else .error .noMonitor

def initializeMRNet (network : Option (List String)) (pump : MessagePump) : Result (MessagePump × Bool) :=
  if pump.isMRNetInitialized then .ok (pump, false)
  else do
    let callbacks ← registrations.foldlM addCallback pump.callbacks
    let (pump, thrown) := startMessagePump network { pump with callbacks := callbacks }
    return (if thrown then pump else { pump with isMRNetInitialized := true }, thrown)

def finalizeMRNet (pump : MessagePump) : Result MessagePump :=
  if !pump.isMRNetInitialized then .ok pump
  else do
    let pump ← pump.stopMessagePump
    let callbacks ← registrations.foldlM removeCallback pump.callbacks
    -- the flag is set again, not reset
    return { pump with callbacks := callbacks, isMRNetInitialized := true }

def hasBackend (getCanonicalName : String → String) (host : String) (pump : MessagePump) : Result Bool :=
  match pump.theNetwork with
  | .live endPoints =>
    .ok (endPoints.any fun endPoint => getCanonicalName endPoint = getCanonicalName host)
  | _ => .error .noNetwork

end MessagePump

structure Thread where
  database : Nat
  entry : Int
  host : String
deriving DecidableEq

inductive Request
  | attachToThreads (threads : List Thread)
  | createProcess (thread : Thread) (command : String)
  | changeThreadsState (threads : List Thread) (state : ThreadState)
  | detachFromThreads (threads : List Thread)
deriving DecidableEq

structure Instrumentor where
  pump : MessagePump
  requests : List (Request × Bool)
  dmThreadToState : List (Thread × ThreadState)
  dmThreadToCallbacks : List Thread
deriving DecidableEq

namespace Instrumentor

def start : Instrumentor := ⟨⟨false, [], .null, false, 0, 0⟩, [], [], []⟩

def addThread (thread : Thread) (self : Instrumentor) : Result Instrumentor :=
  if lookup thread self.dmThreadToState = none ∧ thread ∉ self.dmThreadToCallbacks then
    .ok { self with
      dmThreadToState := self.dmThreadToState ++ [(thread, .disconnected)]
      dmThreadToCallbacks := self.dmThreadToCallbacks ++ [thread] }
  else .error .threadTable

def removeThread (thread : Thread) (self : Instrumentor) : Result Instrumentor :=
  if lookup thread self.dmThreadToState = none then .error .threadTable
  else .ok { self with
    dmThreadToState := self.dmThreadToState.filter fun entry => entry.1 ≠ thread }

def setThreadState (state : ThreadState) (self : Instrumentor) (thread : Thread) : Result Instrumentor :=
  if lookup thread self.dmThreadToState = none then .error .threadTable
  else .ok { self with
    dmThreadToState := self.dmThreadToState.map fun entry =>
      if entry.1 = thread then (thread, state) else entry }

def connected : ThreadState → Bool
  | .disconnected | .connecting | .nonexistent => false
  | .running | .suspended | .terminated => true

def isConnected (self : Instrumentor) (thread : Thread) : Bool :=
  connected ((lookup thread self.dmThreadToState).getD .disconnected)

def sendToBackends (request : Request) (self : Instrumentor) : Result Instrumentor :=
  match self.pump.theNetwork with
  | .live _ => .ok { self with
      requests := self.requests ++ [(request, self.pump.monitorRunning)] }
  | _ => .error .noNetwork

section

variable (getCanonicalName : String → String)

def setConnecting (thread : Thread) (self : Instrumentor) : Result (Instrumentor × Bool) :=
  match lookup thread self.dmThreadToState with
  | none => .error .threadTable
  | some state => do
      let hasBackend ← self.pump.hasBackend getCanonicalName thread.host
      if !connected state && hasBackend then
        let self ← self.setThreadState .connecting thread
        return (self, true)
      else return (self, false)

def addToAttach (found : Instrumentor × List Thread) (thread : Thread) :
    Result (Instrumentor × List Thread) := do
  let (self, toAttach) ← found.1.setConnecting getCanonicalName thread
  return (self, if toAttach then found.2 ++ [thread] else found.2)

def validateThreads (self : Instrumentor) : List Thread → Result Bool
  | [] => .ok true
  | thread :: rest => do
      let hasBackend ← self.pump.hasBackend getCanonicalName thread.host
      if !hasBackend || !self.isConnected thread then return false
      else self.validateThreads rest

def retain (thread : Thread) (self : Instrumentor) : Result Instrumentor :=
  self.addThread thread

def create (thread : Thread) (command : String) (network : Option (List String))
    (self : Instrumentor) : Result Instrumentor := do
  let (pump, thrown) ← self.pump.initializeMRNet network
  let self := { self with pump := pump }
  if thrown then return self
  else
    let self ← self.addThread thread
    let (self, _) ← self.setConnecting getCanonicalName thread
    self.sendToBackends (.createProcess thread command)

def changeState (threads : List Thread) (state : ThreadState) (network : Option (List String))
    (self : Instrumentor) : Result Instrumentor :=
  if state = .connecting then do
    let (pump, thrown) ← self.pump.initializeMRNet network
    let self := { self with pump := pump }
    if thrown then return self
    else
      let (self, threadsToAttach) ← threads.foldlM (addToAttach getCanonicalName) (self, [])
      if threadsToAttach ≠ [] then self.sendToBackends (.attachToThreads threadsToAttach)
      else return self
  else if !self.pump.isMRNetInitialized then .error .precondition
  else do
    let valid ← self.validateThreads getCanonicalName threads
    if !valid then return self
    else
      let self ← self.sendToBackends (.changeThreadsState threads state)
      threads.foldlM (setThreadState state) self

def detach (thread : Thread) (self : Instrumentor) : Result Instrumentor :=
  if self.isConnected thread then self.sendToBackends (.detachFromThreads [thread]) else .ok self

def release (thread : Thread) (self : Instrumentor) : Result Instrumentor := do
  let self ← self.detach thread
  let self ← self.removeThread thread
  if self.dmThreadToState.isEmpty && self.pump.isMRNetInitialized then do
    let pump ← self.pump.finalizeMRNet
    return { self with pump := pump }
  else return self

def threadsStateChanged (threads : List Thread) (state : ThreadState) (self : Instrumentor) :
    Instrumentor :=
  if self.pump.monitorRunning then
    { self with dmThreadToState := self.dmThreadToState.map fun entry =>
        if entry.1 ∈ threads then (entry.1, state) else entry }
  else self

end

inductive Call
  | retain (thread : Thread)
  | create (thread : Thread) (command : String) (network : Option (List String))
  | changeState (threads : List Thread) (state : ThreadState) (network : Option (List String))
  | release (thread : Thread)
  | threadsStateChanged (threads : List Thread) (state : ThreadState)
deriving DecidableEq

def Call.step (getCanonicalName : String → String) (self : Instrumentor) : Call → Result Instrumentor
  | .retain thread => self.retain thread
  | .create thread command network => self.create getCanonicalName thread command network
  | .changeState threads state network => self.changeState getCanonicalName threads state network
  | .release thread => self.release thread
  | .threadsStateChanged threads state => .ok (self.threadsStateChanged threads state)

end Instrumentor

end OpenSpeedShop.Frontend
