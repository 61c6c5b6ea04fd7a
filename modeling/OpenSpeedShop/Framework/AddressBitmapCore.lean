import OpenSpeedShop.Framework.Interval
import OpenSpeedShop.Library.Fallible
import OpenSpeedShop.Library.OrderedMap

/-!
Checked address arithmetic, and bitmaps that hold one bit for each address of a
range. A call either gives a value or fails in one of the ways listed first.
-/

namespace OpenSpeedShop

open Fallible

inductive Failure
  | assertion
  | endlessLoop
  | outOfBounds
  | entryOverlapping (table : String)
deriving DecidableEq

abbrev Result := Except Failure

namespace Address

/-- `operator-`: the signed difference, which must not have wrapped around. -/
def sub (self other : Address) : Result Int64 :=
  let result := (self - other).toInt64
  if (self > other ∨ result ≤ 0) ∧ (self < other ∨ result ≥ 0) then .ok result
  else .error .assertion

def add (self other : Address) : Result Address :=
  let result := self + other
  if result ≥ self then .ok result else .error .assertion

/-- `operator+=` for a signed offset, which reports an overflow and goes on. -/
def addOffset (self : Address) (offset : Int64) : Address := self + offset.toUInt64

end Address

def Interval.make {Value : Type} [LinearOrder Value] (dmBegin dmEnd : Value) : Result (Interval Value) :=
  match Interval.make? dmBegin dmEnd with
  | some range => .ok range
  | none => .error .assertion

namespace AddressRange

def doesContainRange (self range : AddressRange) : Result Bool :=
  if self.doesContain range.dmBegin then do
    let last ← Address.sub range.dmEnd 1
    return self.doesContain last.toUInt64
  else return false

/-- The addresses that `for(i = begin; i != end; ++i)` visits. -/
def addresses (self : AddressRange) : List Address :=
  (List.range self.getWidth.toNat).map fun offset => self.dmBegin + UInt64.ofNat offset

/-- `std::less`, for which overlapping ranges are equivalent. Sets and maps of
ranges are ordered by it. -/
def less (lhs rhs : AddressRange) : Bool := decide (lhs.dmEnd ≤ rhs.dmBegin)

end AddressRange

/-- The values of `for(unsigned i = 0; i < width; ++i)`. The counter has 32 bits
and wraps around, so that it never reaches a width of `2 ^ 32` or more. -/
def counterFrom (width : UInt64) : (fuel : Nat) → UInt32 → Option (List Nat)
  | 0, _ => none
  | fuel + 1, i =>
    if i.toUInt64 < width then (counterFrom width fuel (i + 1)).map (i.toNat :: ·)
    else some []

def counter (width : UInt64) : Result (List Nat) :=
  match counterFrom width (width.toNat + 1) 0 with
  | some indices => .ok indices
  | none => .error .endlessLoop

structure AddressBitmap where
  dmRange : AddressRange
  dmBitmap : Vector Bool dmRange.getWidth.toNat

namespace AddressBitmap

def ofRange (range : AddressRange) : AddressBitmap :=
  ⟨range, Vector.replicate _ false⟩

/-- `contents[i / 8] & (1 << (i % 8))` -/
def bitAt (contents : List UInt8) (i : Nat) : Option Bool :=
  contents[i / 8]?.map fun byte => (byte &&& (1 <<< UInt8.ofNat (i % 8))) != 0

/-- `contents[i / 8] |= 1 << (i % 8)` -/
def setBit (contents : List UInt8) (i : Nat) : List UInt8 :=
  contents.modify (i / 8) fun byte => byte ||| (1 <<< UInt8.ofNat (i % 8))

def readBit {size : Nat} (blob : List UInt8) (bits : Vector Bool size) (i : Nat) : Result (Vector Bool size) :=
  match bitAt blob i with
  | some value => .ok (bits.setIfInBounds i value)
  | none => .error .outOfBounds

/-- The assertion admits a blob that lacks its last byte; reading that byte is
out of bounds. -/
def ofBlob (range : AddressRange) (blob : List UInt8) : Result AddressBitmap := do
  check (blob.length ≥ range.getWidth.toNat / 8) .assertion
  let indices ← counter range.getWidth
  let bits ← indices.foldlM (readBit blob) (Vector.replicate range.getWidth.toNat false)
  return ⟨range, bits⟩

def setValue (self : AddressBitmap) (address : Address) (value : Bool) : Result AddressBitmap := do
  check (self.dmRange.doesContain address) .assertion
  let index ← Address.sub address self.dmRange.dmBegin
  return { self with dmBitmap := self.dmBitmap.setIfInBounds index.toUInt64.toNat value }

def getValue (self : AddressBitmap) (address : Address) : Result Bool := do
  check (self.dmRange.doesContain address) .assertion
  let index ← Address.sub address self.dmRange.dmBegin
  match self.dmBitmap[index.toUInt64.toNat]? with
  | some value => .ok value
  | none => .error .outOfBounds

def getBlob (self : AddressBitmap) : Result (List UInt8) := do
  let size := ((self.dmRange.getWidth - 1) / 8 + 1).toUInt32
  let indices ← counter self.dmRange.getWidth
  return indices.foldl (fun contents i =>
    if self.dmBitmap[i]? = some true then setBit contents i else contents)
    (List.replicate size.toNat 0)

structure Scan where
  inRange : Bool
  rangeBegin : Address
  ranges : List (AddressRange × Unit)

def scan (self : AddressBitmap) (value : Bool) (state : Scan) (i : Address) : Result Scan := do
  let bit ← self.getValue i
  if !state.inRange && bit == value then
    return { state with inRange := true, rangeBegin := i }
  else if state.inRange && bit != value then
    let range ← Interval.make state.rangeBegin i
    return { state with inRange := false, ranges := OrderedMap.insert AddressRange.less range () state.ranges }
  else return state

def getContiguousRanges (self : AddressBitmap) (value : Bool) : Result (List AddressRange) := do
  let state ← self.dmRange.addresses.foldlM (self.scan value) ⟨false, 0, []⟩
  if state.inRange then
    let range ← Interval.make state.rangeBegin self.dmRange.dmEnd
    return (OrderedMap.insert AddressRange.less range () state.ranges).map Prod.fst
  else return state.ranges.map Prod.fst

end AddressBitmap

end OpenSpeedShop
