import Mathlib.Data.List.Basic

/-!
The buffer of a collector runtime for program counter (PC) samples, with the hash table that finds the
entry of an address. Accesses outside of an array and endless loops give no result.
-/

namespace OpenSpeedShop

def blobSizeFactor (offline : Bool) : Nat := if offline then 15 else 1

def pcBufferSize (offline : Bool) : Nat := 1024 * blobSizeFactor offline

def pcHashTableSize (offline : Bool) : Nat := pcBufferSize offline + pcBufferSize offline / 4

structure PCData (offline : Bool) where
  addrBegin : UInt64
  addrEnd : UInt64
  length : UInt16
  pc : Vector UInt64 (pcBufferSize offline)
  count : Vector UInt8 (pcBufferSize offline)
  hashTable : Vector UInt32 (pcHashTableSize offline)

/-- `values[index] = value` -/
def store? {Value : Type} {size : Nat} (values : Vector Value size) (index : Nat) (value : Value) :
    Option (Vector Value size) :=
  if inside : index < size then some (values.set index value inside) else none

namespace PCData

variable {offline : Bool}

def probe (buffer : PCData offline) (pc : UInt64) : (fuel bucket : Nat) → Option Nat
  | 0, _ => none
  | fuel + 1, bucket => do
      let place ← buffer.hashTable[bucket]?
      if place > 0 then
        let other ← buffer.pc[(place - 1).toNat]?
        if other != pc then probe buffer pc fuel ((bucket + 1) % pcHashTableSize offline)
        else return bucket
      else return bucket

def existingEntry (buffer : PCData offline) (pc : UInt64) (bucket : Nat) : Option (Option Nat) := do
  let place ← buffer.hashTable[bucket]?
  if place > 0 then
    let entry := (place - 1).toNat
    let other ← buffer.pc[entry]?
    let count ← buffer.count[entry]?
    return if other = pc ∧ count < 255 then some entry else none
  else return none

def incrementCount (buffer : PCData offline) (entry : Nat) : Option (PCData offline) := do
  let count ← buffer.count[entry]?
  let counts ← store? buffer.count entry (count + 1)
  return { buffer with count := counts }

def addEntry (buffer : PCData offline) (pc : UInt64) (bucket : Nat) : Option (PCData offline) := do
  let entry := buffer.length.toNat
  let pcs ← store? buffer.pc entry pc
  let counts ← store? buffer.count entry 1
  let hashTable ← store? buffer.hashTable bucket (UInt32.ofNat entry + 1)
  return { buffer with
    pc := pcs
    count := counts
    length := buffer.length + 1
    addrBegin := if pc < buffer.addrBegin then pc else buffer.addrBegin
    addrEnd := if pc > buffer.addrEnd then pc else buffer.addrEnd
    hashTable := hashTable }

def updatePCData (pc : UInt64) (buffer : PCData offline) : Option (Bool × PCData offline) := do
  let bucket ← buffer.probe pc (pcHashTableSize offline) ((pc >>> 4).toNat % pcHashTableSize offline)
  match ← buffer.existingEntry pc bucket with
  | some entry => do
      let buffer ← buffer.incrementCount entry
      return (false, buffer)
  | none => do
      let buffer ← buffer.addEntry pc bucket
      return (buffer.length.toNat = pcBufferSize offline, buffer)

def reset (buffer : PCData offline) : PCData offline :=
  { buffer with
    addrBegin := -1
    addrEnd := 0
    length := 0
    hashTable := Vector.replicate (pcHashTableSize offline) 0 }

end PCData

end OpenSpeedShop
