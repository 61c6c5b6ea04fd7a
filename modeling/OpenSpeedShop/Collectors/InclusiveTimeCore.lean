import OpenSpeedShop.Collectors.UsertimeCore
import Mathlib.Data.Finset.Sort
import Mathlib.Data.Rat.Floor

/-!
The metrics of the user time collector and of the MPI profiling collector. Numbers of type
double are exact rationals; an access outside of an array has no outcome.
-/

namespace OpenSpeedShop.InclusiveTime

structure Sample where
  trace : List Address
  count : Nat
  time : ℚ

def usertimeSample (interval : UInt64) (sample : Usertime.Sample) : Sample where
  trace := sample.1
  count := sample.2.toNat
  time := sample.2.toNat * interval.toNat / 1000000000

structure ProfileData where
  stacktraces : List UInt64
  count : List UInt8
  time : List UInt64

def ProfileData.sample (data : ProfileData) (entry : List UInt64 × Nat) : Option Sample := do
  let count ← data.count[entry.2]?
  let time ← data.time[entry.2]?
  return ⟨entry.1.filter Usertime.keptAddress, count.toNat, time.toNat / 1000000000⟩

def tracesFrom (frames : List UInt64) (ib : Nat) :
    (ie : Nat) → List (UInt64 × UInt8) → List (List UInt64 × Nat)
  | _, [] => [(frames, ib)]
  | ie, (frame, count) :: rest =>
    if count > 0 then (frames, ib) :: tracesFrom [frame] ie (ie + 1) rest
    else tracesFrom (frames ++ [frame]) ib (ie + 1) rest

def ProfileData.traces (data : ProfileData) : List (List UInt64 × Nat) :=
  match data.stacktraces.zip data.count with
  | [] => []
  | (frame, _) :: rest => tracesFrom [frame] 0 1 rest

inductive Profile
  | usertime (data : Usertime.Data)
  | mpip (data : ProfileData)

def Profile.samples : Profile → Option (List Sample)
  | .usertime data => data.decode.map fun samples => samples.map (usertimeSample data.interval)
  | .mpip data =>
    if data.stacktraces.length = data.count.length then data.traces.mapM data.sample else none

def Profile.checksBounds : Profile → Bool
  | .usertime _ => true
  | .mpip _ => false

/-- The fraction of the blob's time that lies in a subextent: `t_intersection / t_blob`. -/
def fraction (etimeinterval : TimeInterval) (subextent : Extent) : ℚ :=
  (etimeinterval.inter subextent.dmInterval).getWidth.toNat / etimeinterval.getWidth.toNat

def addTime (etimeinterval : TimeInterval) (sample : Sample) (subextent : Extent) (value : ℚ) : ℚ :=
  value + sample.time * fraction etimeinterval subextent

structure Detail where
  dmCount : Nat
  dmTime : ℚ

def addDetail (etimeinterval : TimeInterval) (sample : Sample) (subextent : Extent)
    (details : List Address → Option Detail) : List Address → Option Detail :=
  let found := (details sample.trace).getD ⟨0, 0⟩
  let part := fraction etimeinterval subextent
  Function.update details sample.trace
    (some ⟨found.dmCount + ⌊sample.count * part⌋₊, found.dmTime + sample.time * part⟩)

section

variable {Value : Type} (nthElement : NthElement) (fuel : Nat) (etimeinterval : TimeInterval)

structure Pass (Value : Type) where
  subextents : ExtentGroup
  values : List Value

def addTo (add : Extent → Value → Value) (extents : List Extent) (values : List Value) (k : Nat) :
    Option (List Value) := do
  let subextent ← extents[k]?
  let value ← values[k]?
  return values.set k (add subextent value)

def addFrame (bounds : Option AddressRange) (add : Extent → Value → Value) (pass : Pass Value)
    (frame : Address) : Option (Pass Value) :=
  if bounds.any fun range => !range.doesContain frame then some pass
  else do
    let (intersection, subextents) ← pass.subextents.getIntersectionWith nthElement fuel
      ⟨etimeinterval, ⟨frame, frame + 1⟩⟩
    let values ← (intersection.sort (· ≤ ·)).foldlM (addTo add subextents.extents) pass.values
    return ⟨subextents, values⟩

def addSample (isExclusive : Bool) (bounds : Option AddressRange)
    (add : Sample → Extent → Value → Value) (pass : Pass Value) (sample : Sample) :
    Option (Pass Value) :=
  (if isExclusive then sample.trace.take 1 else sample.trace).foldlM
    (addFrame nthElement fuel etimeinterval bounds (add sample)) pass

def getMetricValues (isExclusive : Bool) (add : TimeInterval → Sample → Extent → Value → Value)
    (profile : Profile) (pass : Pass Value) : Option (Pass Value) := do
  let (bounds, subextents) ← pass.subextents.getBounds
  if pass.values.length < subextents.extents.length then none
  else do
    let samples ← profile.samples
    samples.foldlM (addSample nthElement fuel etimeinterval isExclusive
      (if profile.checksBounds then some bounds.dmRange else none) (add etimeinterval))
      ⟨subextents, pass.values⟩

def inclusiveTime (profile : Profile) (pass : Pass ℚ) : Option (Pass ℚ) :=
  getMetricValues nthElement fuel etimeinterval false addTime profile pass

def exclusiveTime (profile : Profile) (pass : Pass ℚ) : Option (Pass ℚ) :=
  getMetricValues nthElement fuel etimeinterval true addTime profile pass

def inclusiveDetail (profile : Profile) (pass : Pass (List Address → Option Detail)) :
    Option (Pass (List Address → Option Detail)) :=
  getMetricValues nthElement fuel etimeinterval false addDetail profile pass

def exclusiveDetail (profile : Profile) (pass : Pass (List Address → Option Detail)) :
    Option (Pass (List Address → Option Detail)) :=
  getMetricValues nthElement fuel etimeinterval true addDetail profile pass

end

end OpenSpeedShop.InclusiveTime
