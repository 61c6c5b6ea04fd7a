import OpenSpeedShop.Framework.DataCacheCore
import OpenSpeedShop.Library.Fallible
import OpenSpeedShop.Library.Terminated

/-!
The runtime of the I/O event tracing collector, which keeps call stacks and path names in two buffers,
each ended by zero, and how they are read again. An access outside of the part in use has no outcome.
-/

namespace OpenSpeedShop.Iot

def blobSizeFactor (offline : Bool) : Nat := if offline then 15 else 1

def maxFramesPerStackTrace : Nat := 64

def stackTraceBufferSize (offline : Bool) : Nat := blobSizeFactor offline * 384

def pathBufferSize : Nat := 4096

def eventBufferSize (offline : Bool) : Nat := blobSizeFactor offline * 140

def pathMax : Nat := 4096

structure Event where
  startTime : UInt64
  stopTime : UInt64
  stacktrace : UInt16
  pathindex : UInt16
  syscallno : UInt16
  nsysargs : UInt16
  sysargs : Vector UInt64 4
  retval : Int32
deriving DecidableEq

structure Data where
  stacktraces : List UInt64
  events : List Event
  pathnames : List UInt8
deriving DecidableEq

structure Nesting where
  depth : UInt32
  doTrace : Bool
deriving DecidableEq

structure TLS where
  nesting : Nesting
  header : DataHeader
  data : Data

structure Message where
  header : DataHeader
  data : Data
deriving DecidableEq

structure State where
  tls : TLS
  sent : List Message

/-- What a wrapper records with its event: the function, `currentpathname` up to its zero, the frames of
the unwinder, and the times of messages. -/
structure Call where
  event : Event
  function : UInt64
  currentpathname : List UInt8
  terminated : 0 ∉ currentpathname
  fits : currentpathname.length < pathMax
  frames : List UInt64
  short : frames.length ≤ maxFramesPerStackTrace
  pathTime : Time
  stackTime : Time
  eventTime : Time

def Call.stacktrace (call : Call) : List UInt64 :=
  match call.frames with
  | [] => []
  | _ :: callers => call.function :: callers

def Call.curpath (call : Call) : List UInt8 :=
  match call.currentpathname with
  | [] => []
  | first :: _ => if first.toInt8 > 0 then call.currentpathname else []

def Data.empty : Data := ⟨[], [], [0]⟩

def sendEvents (now : Time) (state : State) : State :=
  let header := { state.tls.header with timeEnd := now }
  { tls := { state.tls with
      header := { header with
        timeBegin := header.timeEnd
        timeEnd := 0
        addrBegin := ~~~0
        addrEnd := 0 }
      data := Data.empty }
    sent := state.sent ++ [⟨header, state.tls.data⟩] }

section

variable {Item : Type} [DecidableEq Item] (terminator : Item)

def advance : (start : Nat) → (rest : List Item) → Nat
  | start, [] => start
  | start, item :: rest => if item ≠ terminator then advance (start + 1) rest else start

theorem advance_ge (rest : List Item) : ∀ start, start ≤ advance terminator start rest := by
  induction rest with
  | nil => exact fun start => Nat.le_refl start
  | cons item rest ih =>
    intro start
    rw [advance]
    split
    · exact Nat.le_of_succ_le (ih (start + 1))
    · exact Nat.le_refl start

/-- The loop that compares what is wanted with what is stored from place `start` on, and
passes on to the next string where the two differ. -/
def search (buffer wanted : List Item) (start i : Nat) : Nat × Nat :=
  if bounds : i < wanted.length ∧ start + i < buffer.length then
    if wanted[i] ≠ buffer[start + i] then
      -- the loop sets `i` to zero, and then increments it
      search buffer wanted (advance terminator (start + i) (buffer.drop (start + i)) + 1) 1
    else search buffer wanted start (i + 1)
  else (start, i)
termination_by (buffer.length - start, wanted.length - i)
decreasing_by
  · have further := advance_ge terminator (buffer.drop (start + i)) (start + i)
    refine Prod.Lex.left _ _ ?_
    omega
  · refine Prod.Lex.right _ ?_
    omega

def insufficientRoom (size : Nat) (buffer wanted : List Item) : Bool :=
  buffer.length + wanted.length + 1 ≥ size

def add (size : Nat) (buffer wanted : List Item) : Option (List Item) :=
  if buffer.length + wanted.length < size then some (buffer ++ wanted ++ [terminator]) else none

end

def addPath (path : List UInt8) (state : State) : Option (Nat × State) := do
  let pathnames ← add 0 pathBufferSize state.tls.data.pathnames path
  return (state.tls.data.pathnames.length, { state with tls.data.pathnames := pathnames })

def recordPath (now : Time) (path : List UInt8) (state : State) : Option (Nat × State) :=
  let (start, i) := search 0 state.tls.data.pathnames path 0 0
  if i = path.length then some (start, state)
  else if insufficientRoom pathBufferSize state.tls.data.pathnames path then
    addPath path (sendEvents now state)
  else addPath path state

def updateHeader (header : DataHeader) (frame : UInt64) : DataHeader :=
  { header with
    addrBegin := if frame < header.addrBegin then frame else header.addrBegin
    addrEnd := if frame > header.addrEnd then frame else header.addrEnd }

def addStack (offline : Bool) (stacktrace : List UInt64) (state : State) : Option (Nat × State) := do
  let stacktraces ← add 0 (stackTraceBufferSize offline) state.tls.data.stacktraces stacktrace
  return (state.tls.data.stacktraces.length,
    { state with
      tls.header := stacktrace.foldl updateHeader state.tls.header
      tls.data.stacktraces := stacktraces })

def recordStack (offline : Bool) (now : Time) (stacktrace : List UInt64) (state : State) :
    Option (Nat × State) :=
  let (start, i) := search 0 state.tls.data.stacktraces stacktrace 0 0
  if i = stacktrace.length then some (start, state)
  else if insufficientRoom (stackTraceBufferSize offline) state.tls.data.stacktraces stacktrace then
    addStack offline stacktrace (sendEvents now state)
  else addStack offline stacktrace state

def addEvent (offline : Bool) (now : Time) (event : Event) (state : State) : Option State :=
  if state.tls.data.events.length < eventBufferSize offline then
    let state := { state with tls.data.events := state.tls.data.events ++ [event] }
    some (if state.tls.data.events.length = eventBufferSize offline then sendEvents now state
      else state)
  else none

def Nesting.start : Nesting := ⟨0, true⟩

def Nesting.isOutermost (nesting : Nesting) : Bool := !(nesting.depth - 1 > 0)

def Nesting.record (nesting : Nesting) : Nesting := ⟨nesting.depth - 1, nesting.isOutermost⟩

def Nesting.doTraceCall (selected : Bool) (nesting : Nesting) : Nesting :=
  if (!nesting.doTrace || !selected) && nesting.depth > 1 then
    { nesting with depth := nesting.depth - 1 }
  else nesting

def recordEvent (offline : Bool) (call : Call) (state : State) : Option State := do
  let nesting := state.tls.nesting
  let (pathindex, state) ← recordPath call.pathTime call.curpath state
  let state := { state with tls.nesting := nesting.record }
  if !nesting.isOutermost then return state
  let (entry, state) ← recordStack offline call.stackTime call.stacktrace state
  addEvent offline call.eventTime
    { call.event with stacktrace := entry.toUInt16, pathindex := pathindex.toUInt16 } state

def startTracing (header : DataHeader) (now : Time) : State where
  tls :=
    { nesting := Nesting.start
      header := { header with
        timeBegin := now
        timeEnd := 0
        addrBegin := ~~~0
        addrEnd := 0 }
      data := Data.empty }
  sent := []

def stopTracing (now : Time) (state : State) : List Message :=
  if state.tls.data.events.length > 0 then (sendEvents now state).sent else state.sent

inductive Action
  | doTrace (selected : Bool)
  | deferTrace (doTrace : Bool)
  | startEvent
  | recordEvent (call : Call)

def Nesting.after (nesting : Nesting) : Action → Nesting
  | .doTrace selected => nesting.doTraceCall selected
  | .deferTrace doTrace => { nesting with doTrace := doTrace }
  | .startEvent => { nesting with depth := nesting.depth + 1 }
  | .recordEvent _ => nesting.record

def step (offline : Bool) (state : State) : Action → Option State
  | .recordEvent call => recordEvent offline call state
  | .doTrace selected =>
    some { state with tls.nesting := state.tls.nesting.after (.doTrace selected) }
  | .deferTrace doTrace =>
    some { state with tls.nesting := state.tls.nesting.after (.deferTrace doTrace) }
  | .startEvent => some { state with tls.nesting := state.tls.nesting.after .startEvent }

structure Traced where
  stacktrace : List Address
  pathname : List UInt8
deriving DecidableEq

def recordedBy (nesting : Nesting) : Action → List Traced
  | .recordEvent call =>
    if nesting.isOutermost then [⟨call.stacktrace, call.currentpathname⟩] else []
  | .doTrace _ => []
  | .deferTrace _ => []
  | .startEvent => []

def recorded : Nesting → List Action → List Traced
  | _, [] => []
  | nesting, action :: rest => recordedBy nesting action ++ recorded (nesting.after action) rest

/-- `details.dm_pathname`, which is empty from the start. -/
def Data.pathname (data : Data) (pathindex : UInt16) : Option (List UInt8) :=
  if pathindex ≠ 0 then Terminated.read 0 data.pathnames pathindex.toNat else some []

def Data.traced (data : Data) (event : Event) : Option Traced := do
  let stacktrace ← Terminated.read 0 data.stacktraces event.stacktrace.toNat
  let pathname ← data.pathname event.pathindex
  return ⟨stacktrace, pathname⟩

def Data.decode (data : Data) : Option (List Traced) := data.events.mapM data.traced

def decode (messages : List Message) : Option (List Traced) :=
  Fallible.gather (fun message => message.data.decode) messages

end OpenSpeedShop.Iot
