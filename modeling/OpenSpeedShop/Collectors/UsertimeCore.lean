import OpenSpeedShop.Framework.DataCacheCore
import OpenSpeedShop.Library.Fallible

/-!
The runtime of the user time collector, which keeps call stacks back to back in one array, and the loop
that takes them apart again. An access outside of the arrays has no outcome.
-/

namespace OpenSpeedShop.Usertime

def bufferSize : Nat := 1024

def maxFrames : Nat := 100

/-- What the unwinding of a thread gives: `framebuf` and its `framecount`. -/
structure CallStack where
  frames : List UInt64
  nonempty : frames ≠ []
  short : frames.length ≤ maxFrames

structure Data where
  interval : UInt64
  bt : List UInt64
  count : List UInt8
deriving DecidableEq

structure Buffer where
  bt : Vector UInt64 bufferSize
  count : Vector UInt8 bufferSize

def Buffer.zero : Buffer := ⟨Vector.replicate _ 0, Vector.replicate _ 0⟩

structure TLS where
  header : DataHeader
  interval : UInt64
  btLen : Nat
  countLen : Nat
  buffer : Buffer
  deferSampling : Bool

structure Message where
  header : DataHeader
  data : Data
deriving DecidableEq

structure State where
  tls : TLS
  sent : List Message

namespace TLS

def restart (tls : TLS) : TLS :=
  { tls with
    header := { tls.header with
      timeBegin := tls.header.timeEnd
      timeEnd := 0
      addrBegin := ~~~0
      addrEnd := 0 }
    btLen := 0
    countLen := 0
    buffer := Buffer.zero }

def data (tls : TLS) : Data :=
  ⟨tls.interval, tls.buffer.bt.toList.take tls.btLen, tls.buffer.count.toList.take tls.countLen⟩

end TLS

def sendSamples (now : Time) (state : State) : State :=
  let header := { state.tls.header with timeEnd := now }
  { tls := { state.tls with header := header }.restart
    sent := state.sent ++ [⟨header, state.tls.data⟩] }

def sameFrames (bt : Vector UInt64 bufferSize) : (i : Nat) → (framebuf : List UInt64) → Option Bool
  | _, [] => some true
  | i, frame :: rest => do
      let stored ← bt[i]?
      if stored != frame then return false else sameFrames bt (i + 1) rest

def matchesAt (tls : TLS) (framebuf : List UInt64) (i : Nat) : Option Bool := do
  let count ← tls.buffer.count[i]?
  if count = 0 || count = 255 then return false else sameFrames tls.buffer.bt i framebuf

def stackindex (tls : TLS) (framebuf : List UInt64) : Option (Option Nat) :=
  (List.range tls.countLen).foldlM (Fallible.keepLast (matchesAt tls framebuf)) none

def updateCount (tls : TLS) (stackindex : Nat) : Option TLS :=
  if inside : stackindex < bufferSize then
    let count := tls.buffer.count[stackindex]
    if count < 255 then
      some { tls with buffer.count := tls.buffer.count.set stackindex (count + 1) }
    else none
  else none

def addFrame (i : Nat) (frame : UInt64) (tls : TLS) : Option TLS :=
  if room : tls.btLen < bufferSize ∧ tls.countLen < bufferSize then
    let header := tls.header
    some { tls with
      header := { header with
        addrBegin := if frame < header.addrBegin then frame else header.addrBegin
        addrEnd := if frame > header.addrEnd then frame else header.addrEnd }
      btLen := tls.btLen + 1
      countLen := tls.countLen + 1
      buffer.bt := tls.buffer.bt.set tls.btLen frame
      buffer.count := tls.buffer.count.set tls.countLen (if i > 0 then 0 else 1) }
  else none

def addFrames : (i : Nat) → (framebuf : List UInt64) → TLS → Option TLS
  | _, [], tls => some tls
  | i, frame :: rest, tls => (addFrame i frame tls).bind (addFrames (i + 1) rest)

def timerHandler (stack : CallStack) (now : Time) (state : State) : Option State :=
  if state.tls.deferSampling then return state
  else do
    let stackindex ← stackindex state.tls stack.frames
    match stackindex.bind (updateCount state.tls) with
    | some tls => return { state with tls := tls }
    | none =>
      let buflen := state.tls.btLen + stack.frames.length
      let state := if buflen > bufferSize then sendSamples now state else state
      let tls ← addFrames 0 stack.frames state.tls
      return { state with tls := tls }

def startSampling (header : DataHeader) (interval : UInt64) (now : Time) : State where
  tls :=
    { header := { header with
        timeBegin := now
        timeEnd := 0
        addrBegin := ~~~0
        addrEnd := 0 }
      interval := interval
      btLen := 0
      countLen := 0
      buffer := Buffer.zero
      deferSampling := false }
  sent := []

def stopSampling (now : Time) (state : State) : List Message :=
  if state.tls.btLen > 0 then (sendSamples now state).sent else state.sent

inductive Event
  | timer (stack : CallStack) (now : Time)
  | startTimer
  | stopTimer

def step (state : State) : Event → Option State
  | .timer stack now => timerHandler stack now state
  | .startTimer => some { state with tls := { state.tls with deferSampling := false } }
  | .stopTimer => some { state with tls := { state.tls with deferSampling := true } }

def sampled : (deferSampling : Bool) → List Event → List (List UInt64)
  | _, [] => []
  | false, .timer stack _ :: rest => stack.frames :: sampled false rest
  | true, .timer _ _ :: rest => sampled true rest
  | _, .startTimer :: rest => sampled false rest
  | _, .stopTimer :: rest => sampled true rest

abbrev Sample := List UInt64 × UInt8

def theHighest : Address := ~~~0

def keptAddress (address : Address) : Bool := !(address ≥ theHighest || address = 0)

def decodeFrom (frames : List UInt64) (count : UInt8) : List (UInt64 × UInt8) → List Sample
  | [] => [(frames.filter keptAddress, count)]
  | (frame, next) :: rest =>
    if next > 0 then (frames.filter keptAddress, count) :: decodeFrom [frame] next rest
    else decodeFrom (frames ++ [frame]) count rest

def decodeStacks : List (UInt64 × UInt8) → List Sample
  | [] => []
  | (frame, count) :: rest => decodeFrom [frame] count rest

def Data.decode (data : Data) : Option (List Sample) :=
  if data.bt.length = data.count.length then some (decodeStacks (data.bt.zip data.count)) else none

def decode (messages : List Message) : Option (List Sample) :=
  Fallible.gather (fun message => message.data.decode) messages

end OpenSpeedShop.Usertime
