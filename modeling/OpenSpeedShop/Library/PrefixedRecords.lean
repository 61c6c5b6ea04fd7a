import OpenSpeedShop.Library.BigEndianWords
import Mathlib.Data.List.Infix

/-!
Records that stand behind their lengths, in a list of bytes that grows at its end.
-/

namespace PrefixedRecords

def records (bytes : List UInt8) : List (List UInt8) :=
  match read : BigEndianWords.read bytes with
  | none => []
  | some (length, behind) =>
    if behind.length < length then []
    else behind.take length :: records (behind.drop length)
termination_by bytes.length
decreasing_by
  rw [BigEndianWords.length_of_read read, List.length_drop]
  omega

inductive Begins (bytes : List UInt8) : List (List UInt8) → List UInt8 → Prop
  | start : Begins bytes [] bytes
  | next {passed : List (List UInt8)} {rest behind : List UInt8} {length : Nat}
      (before : Begins bytes passed rest)
      (read : BigEndianWords.read rest = some (length, behind))
      (complete : length ≤ behind.length) :
      Begins bytes (passed ++ [behind.take length]) (behind.drop length)

variable {bytes behind : List UInt8}

theorem records_end (read : BigEndianWords.read bytes = none) : records bytes = [] := by
  rw [records]
  split
  · rfl
  · rename_i found
    rw [read] at found
    cases found

section

variable {length : Nat} (read : BigEndianWords.read bytes = some (length, behind))
include read

theorem records_read : records bytes = if behind.length < length then []
      else behind.take length :: records (behind.drop length) := by
  rw [records]
  split
  · rename_i missing
    rw [read] at missing
    cases missing
  · rename_i found
    obtain ⟨rfl, rfl⟩ := Prod.mk.inj (Option.some.inj (read.symm.trans found))
    rfl

theorem records_complete (complete : length ≤ behind.length) :
    records bytes = behind.take length :: records (behind.drop length) := by
  rw [records_read read, if_neg (Nat.not_lt.mpr complete)]

theorem records_cut (cut : behind.length < length) : records bytes = [] := by
  rw [records_read read, if_pos cut]

end

theorem records_prefix (bytes more : List UInt8) : records bytes <+: records (bytes ++ more) := by
  induction size : bytes.length using Nat.strongRecOn generalizing bytes with
  | ind size ih =>
    cases read : BigEndianWords.read bytes with
    | none =>
      rw [records_end read]
      exact List.nil_prefix
    | some found =>
      obtain ⟨length, behind⟩ := found
      by_cases cut : behind.length < length
      · rw [records_cut read cut]
        exact List.nil_prefix
      · have complete := Nat.not_lt.mp cut
        have shorter := BigEndianWords.length_of_read read
        have reads := BigEndianWords.read_append read more
        have fits : length ≤ (behind ++ more).length := by
          rw [List.length_append]
          omega
        rw [records_complete read complete, records_complete reads fits,
          List.take_append_of_le_length complete, List.drop_append_of_le_length complete]
        refine List.prefix_cons_inj _ |>.mpr (ih (behind.drop length).length ?_ _ rfl)
        rw [List.length_drop]
        omega

theorem records_eq_nil_of_prefix {first second : List UInt8} (begins : first <+: second)
    (empty : records second = []) : records first = [] := by
  obtain ⟨more, rfl⟩ := begins
  have fewer := records_prefix first more
  rw [empty] at fewer
  exact List.prefix_nil.mp fewer

namespace Begins

variable {passed : List (List UInt8)} {rest : List UInt8}

theorem records (begins : Begins bytes passed rest) :
    PrefixedRecords.records bytes = passed ++ PrefixedRecords.records rest := by
  induction begins with
  | start => rfl
  | next before read complete ih => rw [ih, records_complete read complete, List.append_assoc]; rfl

theorem append (begins : Begins bytes passed rest) (more : List UInt8) :
    Begins (bytes ++ more) passed (rest ++ more) := by
  induction begins with
  | start => exact start
  | next before read complete ih =>
    rename_i passed rest behind length
    have fits : length ≤ (behind ++ more).length := by
      rw [List.length_append]
      omega
    have longer := ih.next (BigEndianWords.read_append read more) fits
    rw [List.take_append_of_le_length complete, List.drop_append_of_le_length complete] at longer
    exact longer

end Begins

end PrefixedRecords
