import OpenSpeedShop.Framework.RawDataFiles
import Mathlib.Data.List.DropRight

/-!
The call sites of CUDA requests: the stack traces that the collector recorded,
without what lies before main() and without the CUDA implementation.
-/

namespace OpenSpeedShop

namespace CUDAQueries

abbrev Address := UInt64

/-- What a thread knows of its address space at the time of the trace: the path of the linked
object and the name of the function that contain an address. -/
structure Thread where
  linkedObjectAt : Address → Option Text
  functionAt : Address → Option Text

namespace Thread

def isMain (thread : Thread) (address : Address) : Bool :=
  match thread.functionAt address with
  | some name => name == "main".toList
  | none => false

def isImplementation (thread : Thread) (address : Address) : Bool :=
  (match thread.linkedObjectAt address with
    | some path =>
      "cuda-collector".toList.isPrefixOf (Text.baseName path) ||
        "libcu".toList.isPrefixOf (Text.baseName path)
    | none => false) ||
  (match thread.functionAt address with
    | some name => "__device_stub".toList.isPrefixOf name || "cudart::".toList.isPrefixOf name
    | none => false)

end Thread

def intMax : Nat := 2147483647

/-- `int i = size`, as far as it is positive. -/
def positiveInt (size : Nat) : Nat := (Int.bmod size 4294967296).toNat

/-- `for(int i = 0; i < result.size(); ++i)`, for the frame of main(); it fails at an index
outside the trace, and where the counter overflows. -/
def trimBeforeMain (thread : Thread) (result : List Address) : (count i : Nat) → Option (List Address)
  | 0, _ => some result
  | count + 1, i => do
      let address ← result[i]?
      if thread.isMain address then some (result.take (i + 1))
      else if i = intMax then none
      else trimBeforeMain thread result count (i + 1)

/-- `for(int i = result.size(); i > 0; --i)`, from the given value of its counter. -/
def trimImplementation (thread : Thread) (result : List Address) : (i : Nat) → Option (List Address)
  | 0 => some result
  | i + 1 => do
      let address ← result[i + 1]?
      if thread.isImplementation address then some (result.drop (i + 2))
      else trimImplementation thread result i

def convertFromArgoNavis (thread : Thread) (trace : List Address) : Option (List Address) := do
  let result ← trimBeforeMain thread trace trace.length 0
  trimImplementation thread result (positiveInt result.length)

def throughMain (thread : Thread) (trace : List Address) : List Address :=
  trace.take (trace.findIdx thread.isMain + 1)

/-- What is to be left of a trace: the frames between main() and the first frame of the
implementation on the way from there to the final call site. -/
def callSite (thread : Thread) (trace : List Address) : List Address :=
  (throughMain thread trace).rtakeWhile fun address => !thread.isImplementation address

end CUDAQueries

/-!
Trimming stack traces. The loop that looks for the CUDA implementation starts
behind the last frame, and never comes to the first.
-/

namespace CUDAQueries

variable {thread : Thread} {frames result : List Address}

theorem trimBeforeMain_from {count i : Nat} (left : i + count = frames.length)
    (before : i ≤ frames.findIdx thread.isMain) (counted : i ≤ intMax) :
    trimBeforeMain thread frames count i =
      if frames.findIdx thread.isMain ≤ intMax then some (throughMain thread frames) else none := by
  induction count generalizing i with
  | zero =>
    have atEnd : frames.findIdx thread.isMain = frames.length := by
      have bound := @List.findIdx_le_length _ thread.isMain frames
      omega
    have inside : frames.length ≤ intMax := by omega
    rw [trimBeforeMain, throughMain, atEnd, if_pos inside, List.take_of_length_le (by omega)]
  | succ count ih =>
    have inside : i < frames.length := by omega
    rw [trimBeforeMain, List.getElem?_eq_getElem inside, Option.bind_eq_bind, Option.bind_some]
    by_cases isMain : thread.isMain frames[i] = true
    · have here : frames.findIdx thread.isMain = i := by
        refine Nat.le_antisymm (Nat.le_of_not_lt fun later => ?_) before
        exact absurd isMain (Bool.eq_false_iff.mp (List.not_of_lt_findIdx later))
      rw [if_pos isMain, throughMain, here, if_pos counted]
    · have behind : i + 1 ≤ frames.findIdx thread.isMain := by
        refine Nat.lt_of_le_of_ne before fun here => isMain ?_
        have found := @List.findIdx_getElem _ thread.isMain frames (here ▸ inside)
        simpa only [← here] using found
      rw [if_neg isMain]
      by_cases last : i = intMax
      · rw [if_pos last, if_neg (by omega)]
      · rw [if_neg last]
        exact ih (by omega) behind (by omega)

theorem trimBeforeMain_eq : trimBeforeMain thread frames frames.length 0 =
    if frames.findIdx thread.isMain ≤ intMax then some (throughMain thread frames) else none :=
  trimBeforeMain_from (Nat.zero_add _) (Nat.zero_le _) (Nat.zero_le _)

theorem length_throughMain (nonempty : frames ≠ []) : 0 < (throughMain thread frames).length := by
  have inhabited := List.length_pos_iff.mpr nonempty
  rw [throughMain, List.length_take]
  omega

theorem positiveInt_eq {size : Nat} (bound : size ≤ intMax) : positiveInt size = size := by
  have same : Int.bmod size 4294967296 = size := by
    unfold intMax at bound
    rw [Int.bmod_def]
    split <;> omega
  unfold positiveInt
  omega

theorem trimImplementation_eq_some (nonempty : result ≠ [])
    (counted : result.length ≤ intMax + 1) {trimmed : List Address} :
    trimImplementation thread result (positiveInt result.length) = some trimmed ↔
      result.length = intMax + 1 ∧ result = trimmed := by
  have inhabited := List.length_pos_iff.mpr nonempty
  by_cases last : result.length = intMax + 1
  · have negative : positiveInt result.length = 0 := by
      rw [last]
      decide
    rw [negative, trimImplementation]
    simp [last]
  · have counter : positiveInt result.length = result.length :=
      positiveInt_eq (by omega)
    obtain ⟨i, length⟩ := Nat.exists_eq_succ_of_ne_zero (Nat.ne_of_gt inhabited)
    have outside : result[i + 1]? = none := List.getElem?_eq_none (by omega)
    rw [counter, length, trimImplementation, outside]
    exact iff_of_false (fun some => by cases some) fun ends => last (length ▸ ends.1)

theorem convertFromArgoNavis_trims_iff (thread : Thread) (frames : List Address) :
    convertFromArgoNavis thread frames = some (callSite thread frames) ↔
      frames = [] ∨ frames.findIdx thread.isMain = intMax ∧ intMax < frames.length ∧
        ∀ address ∈ frames.take (intMax + 1), thread.isImplementation address = false := by
  by_cases empty : frames = []
  · subst empty
    exact iff_of_true rfl (.inl rfl)
  have whole : callSite thread frames = throughMain thread frames ↔
      ∀ address ∈ throughMain thread frames, thread.isImplementation address = false := by
    rw [callSite, List.rtakeWhile_eq_self_iff]
    simp only [Bool.not_eq_true']
  rw [convertFromArgoNavis, trimBeforeMain_eq]
  by_cases counted : frames.findIdx thread.isMain ≤ intMax
  · have bound : (throughMain thread frames).length ≤ intMax + 1 := by
      rw [throughMain, List.length_take]
      omega
    have kept : throughMain thread frames ≠ [] := List.length_pos_iff.mp (length_throughMain empty)
    rw [if_pos counted, Option.bind_eq_bind, Option.bind_some,
      trimImplementation_eq_some kept bound, @eq_comm _ (throughMain _ _) (callSite _ _), whole,
      throughMain, List.length_take]
    constructor
    · rintro ⟨length, free⟩
      have atMain : frames.findIdx thread.isMain = intMax := by omega
      exact .inr ⟨atMain, by omega, atMain ▸ free⟩
    · rintro (nothing | ⟨atMain, long, free⟩)
      · exact absurd nothing empty
      · exact ⟨by omega, by rwa [atMain]⟩
  · rw [if_neg counted]
    refine iff_of_false (fun some => by cases some) ?_
    rintro (nothing | ⟨atMain, -⟩)
    · exact empty nothing
    · omega

theorem trace_overrun : ¬ ∀ (thread : Thread) (frames : List Address),
    convertFromArgoNavis thread frames = some (callSite thread frames) := by
  intro always
  have single := always ⟨fun _ => none, fun _ => none⟩ [0]
  revert single
  decide

end CUDAQueries

end OpenSpeedShop
