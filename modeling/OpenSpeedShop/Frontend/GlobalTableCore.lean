import OpenSpeedShop.Daemon.ThreadTableCore

/-!
Requests for global variables: any number of calls of `Instrumentor::getGlobal`, the daemons and the
monitor thread, in steps within which none gives up the lock of the table, unless it says so.
-/

namespace OpenSpeedShop.Frontend

namespace GlobalTable

open Daemon (ThreadName)

inductive Kind
  | integer
  | string
  | job
deriving DecidableEq

inductive Value
  | integer (value : Int)
  | string (value : String)
  | job (entries : List (String × Int))
deriving DecidableEq

def Value.kind : Value → Kind
  | .integer _ => .integer
  | .string _ => .string
  | .job _ => .job

/-- What the callback for a reply provides: `globalStringValue` takes the string of the message
only when that is null, which a decoded one never is. -/
def Value.provided : Value → Value
  | .integer value => .integer value
  | .string _ => .string ""
  | .job entries => .job entries

structure Query where
  thread : ThreadName
  global : String
  kind : Kind
deriving DecidableEq

structure Reply where
  query : Query
  found : Bool
  value : Value
deriving DecidableEq

/-- Where a call is: its request is sent, it waits in the table, it has got the value, it has
read the flag of its entry, it has left the table and returned. -/
inductive Phase
  | requested
  | waiting
  | taken (value : Value)
  | flagged (found : Bool) (value : Value)
  | returned (found : Bool) (value : Value)
deriving DecidableEq

/-- A call with the flag and the bucket of its entry in the table, and with whether a reply
was handled for it. -/
structure Call where
  query : Query
  phase : Phase
  found : Bool
  bucket : Option Value
  given : Bool
deriving DecidableEq

def Call.take (call : Call) : Option Call :=
  match call.phase, call.bucket with
  | .waiting, some value => some { call with phase := .taken value, bucket := none }
  | _, _ => none

def Call.readFlag (call : Call) : Option Call :=
  match call.phase with
  | .taken value => some { call with phase := .flagged call.found value }
  | _ => none

def Call.leave (call : Call) : Option Call :=
  match call.phase with
  | .flagged found value => some { call with phase := .returned found value }
  | _ => none

inductive Monitor
  | idle
  | setting (call : Nat) (value : Value)
deriving DecidableEq

/-- A failed assertion, or a bucket that is taken for one of another type. -/
inductive Failure
  | threads
  | nobodyWaiting
  | wrongBucket
deriving DecidableEq

/-- The table has the calls in the order in which they were entered. What the daemons have
answered is kept. -/
structure State where
  calls : List Call
  table : List Nat
  requests : List Query
  replies : List Reply
  answered : List Reply
  monitor : Monitor
  failure : Option Failure
deriving DecidableEq

inductive Action
  | send (query : Query)
  | enter (call : Nat)
  | take (call : Nat)
  | readFlag (call : Nat)
  | leave (call : Nat)
  | answer (query : Query) (found : Bool) (value : Value)
  | ignore (query : Query)
  | handle
  | provide
deriving DecidableEq

namespace State

def start : State := ⟨[], [], [], [], [], .idle, none⟩

def getThreads (threads : List ThreadName) (name : ThreadName) : List ThreadName :=
  threads.filter fun thread =>
    thread.host = name.host && thread.pid = name.pid && thread.tid = name.tid

def isFor (state : State) (thread : ThreadName) (global : String) (index : Nat) : Bool :=
  match state.calls[index]? with
  | some call => call.query.thread = thread && call.query.global = global
  | none => false

def find (state : State) (thread : ThreadName) (global : String) : Option Nat :=
  state.table.find? (state.isFor thread global)

def send (threads : List ThreadName) (query : Query) (state : State) : Option State :=
  if query.thread ∈ threads then
    some { state with
      calls := state.calls ++ [⟨query, .requested, false, none, false⟩]
      requests := state.requests ++ [query] }
  else none

def change (index : Nat) (step : Call → Option Call) (state : State) : Option State := do
  let call ← state.calls[index]?
  let call ← step call
  return { state with calls := state.calls.set index call }

def enter (index : Nat) (state : State) : Option State :=
  if state.monitor = .idle then do
    let state ← state.change index fun call =>
      if call.phase = .requested then some { call with phase := .waiting } else none
    return { state with table := state.table ++ [index] }
  else none

def leave (index : Nat) (state : State) : Option State :=
  if state.monitor = .idle then do
    let state ← state.change index Call.leave
    return { state with table := state.table.erase index }
  else none

def answer (reply : Reply) (state : State) : Option State :=
  if reply.query ∈ state.requests ∧ reply.value.kind = reply.query.kind then
    some { state with
      requests := state.requests.erase reply.query
      replies := state.replies ++ [reply]
      answered := state.answered ++ [reply] }
  else none

def handle (threads : List ThreadName) (state : State) : Option State :=
  match state.monitor, state.replies with
  | .idle, reply :: rest =>
    match getThreads threads reply.query.thread with
    | [thread] =>
      match state.find thread reply.query.global with
      | none => some { state with failure := some .nobodyWaiting }
      | some index =>
        match state.calls[index]? with
        | none => none
        | some call =>
          if call.query.kind = reply.value.kind then
            some { state with
              calls := state.calls.set index { call with found := reply.found, given := true }
              replies := rest
              monitor := .setting index reply.value.provided }
          else some { state with failure := some .wrongBucket }
    | _ => some { state with failure := some .threads }
  | _, _ => none

def provide (state : State) : Option State :=
  match state.monitor with
  | .idle => none
  | .setting index value => do
      let state ← state.change index fun call =>
        if call.bucket = none then some { call with bucket := some value } else none
      return { state with monitor := .idle }

/-- Nothing happens after a failure. A daemon does not answer when it does not have the
thread (any more). -/
def step (threads : List ThreadName) (state : State) (action : Action) : Option State :=
  if state.failure = none then
    match action with
    | .send query => state.send threads query
    | .enter index => state.enter index
    | .take index => state.change index Call.take
    | .readFlag index => state.change index Call.readFlag
    | .leave index => state.leave index
    | .answer query found value => state.answer ⟨query, found, value⟩
    | .ignore query =>
      if query ∈ state.requests then
        some { state with requests := state.requests.erase query }
      else none
    | .handle => state.handle threads
    | .provide => state.provide
  else none

end State

end GlobalTable

end OpenSpeedShop.Frontend
