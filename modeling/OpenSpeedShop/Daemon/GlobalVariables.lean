import OpenSpeedShop.Library.CString
import Mathlib.Algebra.GroupWithZero.Nat
import Mathlib.Data.List.Infix

/-!
Global variables of a process: how a daemon reads, writes and reports them, and what the
front end makes of a report. The variable has been found and has a type.
-/

namespace OpenSpeedShop.GlobalVariables

open CString (upToNul upToNul_eq)

def counted {Item : Type} (items : List Item) : List Item :=
  items.take (items.length % 2 ^ 32)

theorem counted_eq_iff {Item : Type} {items : List Item} : counted items = items ↔ items.length < 2 ^ 32 := by
  rw [counted, List.take_eq_self_iff]
  have positive : 0 < 2 ^ 32 := by decide
  constructor
  · exact fun all => all.trans_lt (Nat.mod_lt _ positive)
  · exact fun short => (Nat.mod_eq_of_lt short).ge

theorem counted_map_eq_iff {Item : Type} {items : List Item} {change : Item → Item} :
    counted (items.map change) = items ↔ items.length < 2 ^ 32 ∧ ∀ item ∈ items, change item = item := by
  have unchanged : items.map change = items ↔ ∀ item ∈ items, change item = item := by
    have same := @List.map_inj_left _ _ items change id
    rwa [List.map_id] at same
  rw [← unchanged]
  constructor
  · intro all
    have length := congrArg List.length all
    rw [counted, List.length_take, List.length_map] at length
    have positive : 0 < 2 ^ 32 := by decide
    have below := Nat.mod_lt items.length positive
    have short : (items.map change).length < 2 ^ 32 := by
      rw [List.length_map]
      omega
    refine ⟨List.length_map change ▸ short, ?_⟩
    rwa [counted_eq_iff.mpr short] at all
  · rintro ⟨short, same⟩
    rw [same]
    exact counted_eq_iff.mpr short

abbrev Job := List (List UInt8 × Int32)

structure Message (Value : Type) where
  global : List UInt8
  found : Bool
  value : Value
deriving DecidableEq

namespace Senders

def convert (text : List UInt8) : List UInt8 := upToNul 0 text

def convertJob (job : Job) : List (List UInt8 × Int64) :=
  counted (job.map fun entry => (convert entry.1, entry.2.toInt64))

variable (global : List UInt8) (found : Bool)

def globalIntegerValue (value : Int64) : Message Int64 := ⟨convert global, found, value⟩

def globalJobValue (job : Job) : Message (List (List UInt8 × Int64)) :=
  ⟨convert global, found, convertJob job⟩

def globalStringValue (value : List UInt8) : Message (Option (List UInt8)) :=
  ⟨convert global, found, some (convert value)⟩

end Senders

namespace Callbacks

/-- A message as it is decoded from what was encoded, its value in the way of its type. -/
def decoded {Value : Type} (value : Value → Value) (message : Message Value) : Message Value :=
  ⟨counted message.global, message.found, value message.value⟩

/-- The call of `provideValue`. The threads are those that the message names. -/
def provideValue {Thread Value Given : Type} (threads : List Thread) (message : Message Value)
    (value : Value → Option Given) : Option (Thread × List UInt8 × Bool × Given) :=
  match threads with
  | [thread] => do
      let given ← value message.value
      return (thread, message.global, message.found, given)
  | _ => none

variable {Thread : Type} (threads : List Thread)

def globalIntegerValue (message : Message Int64) : Option (Thread × List UInt8 × Bool × Int64) :=
  provideValue threads (decoded id message) some

def globalJobValue (message : Message (List (List UInt8 × Int64))) :
    Option (Thread × List UInt8 × Bool × Job) :=
  provideValue threads (decoded (List.map fun entry => (counted entry.1, entry.2)) message)
    fun entries => some (entries.map fun entry => (entry.1, entry.2.toInt32))

/-- A null pointer is no string. -/
def globalStringValue (message : Message (Option (List UInt8))) :
    Option (Thread × List UInt8 × Bool × List UInt8) :=
  provideValue threads (decoded (Option.map counted) message)
    fun value => if value = none then value else some []

end Callbacks

inductive Signedness
  | unsigned
  | signed
deriving DecidableEq

/-- The type of a variable. Its signedness is that of the program; Dyninst does not tell. -/
structure BPatchType where
  getName : String
  getSize : Nat
  signedness : Signedness
deriving DecidableEq

def finds (typeName text : String) : Bool := decide (text.toList <:+: typeName.toList)

def readAs (unsignedNames signedNames : List String) (typeName : String) : Option Signedness :=
  if unsignedNames.any (finds typeName) then some .unsigned
  else if signedNames.any (finds typeName) || typeName = "<no type>" || typeName = "" then
    some .signed
  else none

namespace Dyninst

variable (type : BPatchType)

def getGlobalAs : Option Signedness :=
  match type.getSize with
  | 1 => readAs ["unsigned char", "uint8_t"] ["char", "int8_t"] type.getName
  | 2 => readAs ["unsigned short", "uint16_t"] ["short", "int16_t"] type.getName
  | 4 => readAs ["unsigned int", "unsigned long", "uint32_t"] ["int", "long", "int32_t"] type.getName
  | 8 => readAs ["unsigned long long", "uint64_t"] ["long long", "int64_t", "ash_t"] type.getName
  | _ => none

def setGlobalAs : Option Signedness :=
  match type.getSize with
  | 1 => readAs ["unsigned char", "uint8_t"] ["char", "int8_t"] type.getName
  | 2 => readAs ["unsigned short", "uint16_t"] ["short", "int16_t"] type.getName
  | 4 => readAs ["unsigned int", "unsigned long", "uint32_t"] ["int", "long", "int32_t"] type.getName
  | 8 => readAs ["unsigned long long", "uint64_t"] ["long long", "int64_t"] type.getName
  | _ => none

def promote {width : Nat} : Signedness → BitVec width → BitVec 64
  | .unsigned, raw => raw.setWidth 64
  | .signed, raw => raw.signExtend 64

def getGlobal (raw : BitVec (8 * type.getSize)) : Bool × BitVec 64 :=
  match getGlobalAs type with
  | some signedness => (true, promote signedness raw)
  | none => (false, 0)

def setGlobal (value : BitVec 64) (raw : BitVec (8 * type.getSize)) : BitVec (8 * type.getSize) :=
  match setGlobalAs type with
  | some _ => value.setWidth (8 * type.getSize)
  | none => raw

end Dyninst

def reduced (size : Nat) (signedness : Signedness) (value : BitVec 64) : BitVec 64 :=
  Dyninst.promote signedness (value.setWidth (8 * size))

/-- A variable that can be read has what has been written to it. -/
def ReadsBack (type : BPatchType) : Prop :=
  ∀ (raw : BitVec (8 * type.getSize)) value, (Dyninst.getGlobal type raw).1 = true →
    Dyninst.getGlobal type (Dyninst.setGlobal type value raw) =
      (true, reduced type.getSize type.signedness value)

/-- The name stands for an integer by itself, not only by `"ash_t"`, and tells the signedness
where that matters. -/
def WellNamed (type : BPatchType) : Prop :=
  ∀ signedness, Dyninst.getGlobalAs type = some signedness →
    Dyninst.setGlobalAs type ≠ none ∧ (signedness = type.signedness ∨ type.getSize = 8)

/-- The callback gives the value and the flag to one thread. -/
def Survives {Thread Value : Type} (found : Bool) (value : Value)
    (outcome : Option (Thread × List UInt8 × Bool × Value)) : Prop :=
  ∃ thread global, outcome = some (thread, global, found, value)

namespace Dyninst

variable {type : BPatchType} {signedness : Signedness}

theorem size_of_getGlobalAs (read : getGlobalAs type = some signedness) :
    type.getSize = 1 ∨ type.getSize = 2 ∨ type.getSize = 4 ∨ type.getSize = 8 := by
  unfold getGlobalAs at read
  split at read
  · exact Or.inl ‹_›
  · exact Or.inr (Or.inl ‹_›)
  · exact Or.inr (Or.inr (Or.inl ‹_›))
  · exact Or.inr (Or.inr (Or.inr ‹_›))
  · cases read

section

variable {size : Nat} (isSize : size = 1 ∨ size = 2 ∨ size = 4 ∨ size = 8) (declared : Signedness)

include isSize

theorem promote_zero_ne : promote signedness (0 : BitVec (8 * size)) ≠ reduced size declared 1 := by
  rcases isSize with rfl | rfl | rfl | rfl <;> cases signedness <;> cases declared <;> decide

/-- The value with all bits set tells how it is read, unless all its bits are read. -/
theorem promote_ones_iff :
    promote signedness ((-1 : BitVec 64).setWidth (8 * size)) = reduced size declared (-1) ↔
      signedness = declared ∨ size = 8 := by
  rcases isSize with rfl | rfl | rfl | rfl <;> cases signedness <;> cases declared <;> decide

end

theorem promote_whole (first second : Signedness) (raw : BitVec (8 * 8)) :
    promote first raw = promote second raw := by
  have whole : ∀ signedness, promote signedness raw = raw := by
    intro signedness
    cases signedness with
    | unsigned => exact BitVec.setWidth_eq raw
    | signed => exact BitVec.signExtend_eq raw
  rw [whole, whole]

theorem getGlobal_of_getGlobalAs (read : getGlobalAs type = some signedness)
    (raw : BitVec (8 * type.getSize)) : getGlobal type raw = (true, promote signedness raw) := by
  rw [getGlobal, read]

theorem readsBack_iff : ReadsBack type ↔ WellNamed type := by
  constructor
  · intro trips signedness read
    have again := fun value => trips 0 value (by rw [getGlobal_of_getGlobalAs read])
    simp only [getGlobal_of_getGlobalAs read, Prod.mk.injEq, true_and] at again
    have written : setGlobalAs type ≠ none := by
      intro unwritten
      have one := again 1
      rw [setGlobal, unwritten] at one
      exact promote_zero_ne (size_of_getGlobalAs read) _ one
    obtain ⟨other, written'⟩ := Option.ne_none_iff_exists'.mp written
    have ones := again (-1)
    rw [setGlobal, written'] at ones
    exact ⟨written, (promote_ones_iff (size_of_getGlobalAs read) _).mp ones⟩
  · intro named raw value found
    cases read : getGlobalAs type with
    | none => simp [getGlobal, read] at found
    | some signedness =>
      obtain ⟨written, same⟩ := named signedness read
      obtain ⟨other, written⟩ := Option.ne_none_iff_exists'.mp written
      rw [getGlobal_of_getGlobalAs read, setGlobal, written, reduced]
      rcases same with rfl | whole
      · rfl
      · obtain ⟨name, size, declared⟩ := type
        subst whole
        exact congrArg (Prod.mk true) (promote_whole _ _ _)

end Dyninst

section

variable {Thread : Type} (threads : List Thread) (global : List UInt8) (found : Bool)

theorem survives_provideValue {Value Sent : Type} {message : Message Sent}
    {given : Sent → Option Value} {value : Value} :
    Survives message.found value (Callbacks.provideValue threads message given) ↔
      threads.length = 1 ∧ given message.value = some value := by
  match threads with
  | [] => simp [Survives, Callbacks.provideValue]
  | [thread] =>
    cases here : given message.value with
    | none => simp [Survives, Callbacks.provideValue, here]
    | some other => simp [Survives, Callbacks.provideValue, here]
  | _ :: _ :: _ => simp [Survives, Callbacks.provideValue]

theorem sentText_eq_iff {text : List UInt8} :
    counted (Senders.convert text) = text ↔ 0 ∉ text ∧ text.length < 2 ^ 32 := by
  constructor
  · intro same
    have cut : Senders.convert text <+: text := List.takeWhile_prefix _
    have whole : Senders.convert text = text := by
      refine cut.eq_of_length (cut.length_le.antisymm ?_)
      exact (congrArg List.length same).ge.trans (List.take_prefix _ _).length_le
    refine ⟨fun nul => ?_, ?_⟩
    · rw [← whole] at nul
      simpa using List.mem_takeWhile_imp nul
    · rw [whole] at same
      exact counted_eq_iff.mp same
  · rintro ⟨string, short⟩
    rw [Senders.convert, upToNul_eq string]
    exact counted_eq_iff.mpr short

/-- Integers and jobs reach the caller, of the strings only the empty one, and a variable has
the value that was written to it when its name tells its type. -/
theorem values_survive :
    (∀ value, Survives found value (Callbacks.globalIntegerValue threads
        (Senders.globalIntegerValue global found value)) ↔ threads.length = 1) ∧
      (∀ job, Survives found job (Callbacks.globalJobValue threads
        (Senders.globalJobValue global found job)) ↔ threads.length = 1 ∧
          job.length < 2 ^ 32 ∧ ∀ entry ∈ job, 0 ∉ entry.1 ∧ entry.1.length < 2 ^ 32) ∧
      (∀ value, Survives found value (Callbacks.globalStringValue threads
        (Senders.globalStringValue global found value)) ↔ threads.length = 1 ∧ value = []) ∧
      ∀ type, ReadsBack type ↔ WellNamed type := by
  refine ⟨fun value => ?_, fun job => ?_, fun value => ?_, fun type => Dyninst.readsBack_iff⟩
  · refine (survives_provideValue threads).trans ?_
    simp [Callbacks.decoded, Senders.globalIntegerValue]
  · refine (survives_provideValue threads).trans (and_congr_right fun _ => ?_)
    have change : ∀ entry : List UInt8 × Int32,
        (counted (Senders.convert entry.1), entry.2.toInt64.toInt32) = entry ↔
          0 ∉ entry.1 ∧ entry.1.length < 2 ^ 32 := by
      intro entry
      rw [← sentText_eq_iff, Int32.toInt32_toInt64, Prod.ext_iff]
      simp
    rw [Option.some.injEq, ← forall₂_congr fun entry _ => change entry, ← counted_map_eq_iff]
    simp [Callbacks.decoded, Senders.globalJobValue, Senders.convertJob, counted, List.map_take,
      Function.comp_def]
  · refine (survives_provideValue threads).trans (and_congr_right fun _ => ?_)
    simp [Callbacks.decoded, Senders.globalStringValue, eq_comm]

theorem string_lost :
    ¬ Survives true [97] (Callbacks.globalStringValue ["thread"]
      (Senders.globalStringValue [103] true [97])) := by
  rintro ⟨thread, global, outcome⟩
  cases outcome

end

end OpenSpeedShop.GlobalVariables
