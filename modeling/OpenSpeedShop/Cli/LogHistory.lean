import OpenSpeedShop.Library.CString
import Mathlib.Algebra.GroupWithZero.Nat
import Mathlib.Algebra.Ring.Int.Defs

/-! The loop of `Read_Log_File_History`. -/

namespace OpenSpeedShop.LogHistory

open CString (upToNul firstLine lines chunk fgets)
open List (length_append length_pos_iff flatten_cons sum_cons map_cons length_nil length_drop
  length_dropLast)

inductive LogEntryType
  | all
  | commands
  | originalCommands
  | results

def strstr (text wanted : List UInt8) : Option Nat :=
  (List.range text.length).find? fun place => wanted.isPrefixOf (text.drop place)

def recordText (logType : LogEntryType) (record : List UInt8) : Option Nat :=
  match logType with
  | .all => some 0
  | .commands => if record.head? = some 67 then some 2 else none
  | .originalCommands =>
    -- "C", and "PARSING:" with a blank behind it
    if record.head? = some 67 then
      (strstr record [80, 65, 82, 83, 73, 78, 71, 58]).map (· + 9)
    else none
  | .results => if record.head? = some 82 then some 2 else none

structure Reading where
  s : List UInt8
  cmdf : List UInt8
  i : Int
  dumped : List (List UInt8)

variable (logType : LogEntryType) (toStream : Bool) (size : Nat)

def asInt (value : Int) : Int :=
  if 2 ^ 31 ≤ value % 2 ^ 32 then value % 2 ^ 32 - 2 ^ 32 else value % 2 ^ 32

def iteration (reading : Reading) : Reading :=
  let read := fgets 10 0 (asInt size).toNat reading.s reading.cmdf
  let len := (upToNul 0 read.1).length
  let t := if 2 < len then recordText logType (upToNul 0 read.1) else none
  let s := if t.isSome then read.1.set (len - 1) (if toStream then 10 else 0) else read.1
  { s
    cmdf := read.2
    i := asInt (reading.i + len)
    dumped := reading.dumped ++ t.toList.map fun t => upToNul 0 (s.drop t) }

inductive Ends : Reading → Reading → Prop
  | stop {reading : Reading} (enough : size ≤ reading.i) : Ends reading reading
  | next {reading final : Reading} (more : reading.i < size)
      (rest : Ends (iteration logType toStream size reading) final) : Ends reading final

def Finishes (reading : Reading) : Prop :=
  ∃ final, Ends logType toStream size reading final ∧ final.cmdf = []

def Replays {content : List UInt8} (memory : Vector UInt8 (content.length + 1)) : Prop :=
  Finishes logType toStream content.length ⟨memory.toList, content, 0, []⟩

def pieces (content : List UInt8) : List (List UInt8) :=
  if lines 10 content = [content] then [content.dropLast, content.drop (content.length - 1)]
  else lines 10 content

def lastPiece (content : List UInt8) : List UInt8 :=
  (pieces content).getLastD []

def strlens (texts : List (List UInt8)) : Nat :=
  (texts.map fun text => (upToNul 0 text).length).sum

def leftOf (record : List UInt8) : List UInt8 :=
  if (if 2 < record.length then recordText logType record else none).isSome then
    record.dropLast ++ if toStream then [10] else []
  else record

def again : Nat → List UInt8 → Nat
  | 0, _ => 0
  | rounds + 1, record => record.length + again rounds (leftOf logType toStream record)

def Lands (i : Int) (record : List UInt8) : Prop :=
  ∃ rounds, size ≤ asInt (i + again logType toStream rounds record)

variable {logType toStream size} {reading : Reading}

theorem upToNul_set_last {s : List UInt8} (some_ : upToNul 0 s ≠ []) (byte : UInt8) :
    upToNul 0 (s.set ((upToNul 0 s).length - 1) byte) =
      (upToNul 0 s).dropLast ++ if byte = 0 then [] else [byte] := by
  have clean : 0 ∉ upToNul 0 s := fun member => by simpa using List.mem_takeWhile_imp member
  obtain ⟨front, last, same⟩ := (List.eq_nil_or_concat _).resolve_left some_
  rw [List.concat_eq_append] at same
  obtain ⟨rest, behind, stops⟩ : ∃ rest, s = front ++ last :: rest ∧ (rest = [] ∨ [0] <+: rest) := by
    rcases CString.upToNul_cases s with whole | ⟨rest, ended⟩
    · exact ⟨[], whole.trans same, .inl rfl⟩
    · rw [same, List.append_assoc, List.append_assoc] at ended
      exact ⟨0 :: rest, ended.symm, .inr ⟨rest, rfl⟩⟩
  have changed : s.set ((upToNul 0 s).length - 1) byte = front ++ byte :: rest := by
    rw [same, length_append, List.length_singleton, Nat.add_sub_cancel, behind,
      List.set_append_right _ _ (Nat.le_refl _), Nat.sub_self, List.set_cons_zero]
  rw [changed, same, List.dropLast_concat]
  rw [same, List.mem_append, not_or] at clean
  split
  · next nul => rw [nul, CString.upToNul_append_nul, CString.upToNul_eq clean.1, List.append_nil]
  · next other =>
      have string : 0 ∉ front ++ [byte] := by
        simpa using ⟨clean.1, Ne.symm other⟩
      rw [CString.upToNul_eq_iff string]
      rcases stops with rfl | ⟨more, rfl⟩
      · exact .inl rfl
      · exact .inr ⟨more, by simp⟩

theorem iteration_record : upToNul 0 (iteration logType toStream size reading).s =
      leftOf logType toStream (upToNul 0 (fgets 10 0 (asInt size).toNat reading.s reading.cmdf).1) := by
  unfold iteration leftOf
  generalize (fgets 10 0 (asInt size).toNat reading.s reading.cmdf) = read
  by_cases long : 2 < (upToNul 0 read.1).length
  · have some_ : upToNul 0 read.1 ≠ [] := by
      intro empty
      rw [empty] at long
      exact Nat.not_lt_zero 2 long
    simp only [if_pos long]
    split
    · rw [upToNul_set_last some_]
      cases toStream <;> simp
    · rfl
  · simp only [if_neg long, Option.isSome_none, Bool.false_eq_true, if_false]

theorem asInt_eq {value : Int} (low : - 2 ^ 31 ≤ value) (high : value < 2 ^ 31) : asInt value = value := by
  rw [asInt]
  split <;> omega

theorem finishes_next (more : reading.i < size) : Finishes logType toStream size reading ↔
      Finishes logType toStream size (iteration logType toStream size reading) := by
  constructor
  · rintro ⟨final, ends, consumed⟩
    cases ends with
    | stop enough => omega
    | next _ rest => exact ⟨final, rest, consumed⟩
  · rintro ⟨final, rest, consumed⟩
    exact ⟨final, .next more rest, consumed⟩

theorem asInt_add (first second : Int) : asInt (asInt first + second) = asInt (first + second) := by
  simp only [asInt]
  split <;> split <;> split <;> omega

theorem iteration_cmdf : (iteration logType toStream size reading).cmdf =
      (fgets 10 0 (asInt size).toNat reading.s reading.cmdf).2 := by
  rw [iteration]

theorem iteration_i : (iteration logType toStream size reading).i =
      asInt (reading.i + (upToNul 0 (fgets 10 0 (asInt size).toNat reading.s reading.cmdf).1).length) := by
  rw [iteration]

theorem iteration_sum :
    asInt (iteration logType toStream size reading).i = (iteration logType toStream size reading).i := by
  rw [iteration_i]
  have sum := asInt_add (reading.i +
    (upToNul 0 (fgets 10 0 (asInt size).toNat reading.s reading.cmdf).1).length) 0
  rwa [Int.add_zero, Int.add_zero] at sum

variable {record : List UInt8}

theorem lands_iff {i : Int} : Lands logType toStream size i record ↔ size ≤ asInt i ∨
      Lands logType toStream size (i + record.length) (leftOf logType toStream record) := by
  constructor
  · rintro ⟨rounds, enough⟩
    cases rounds with
    | zero => exact .inl (by simpa [again] using enough)
    | succ rounds =>
      refine .inr ⟨rounds, ?_⟩
      rwa [again, Int.natCast_add, ← Int.add_assoc] at enough
  · rintro (enough | ⟨rounds, enough⟩)
    · exact ⟨0, by simpa [again] using enough⟩
    · refine ⟨rounds + 1, ?_⟩
      rwa [again, Int.natCast_add, ← Int.add_assoc]

theorem lands_asInt {i : Int} :
    Lands logType toStream size (asInt i) record ↔ Lands logType toStream size i record :=
  exists_congr fun rounds => by rw [asInt_add]

theorem finishes_eof (room : 1 < size) (fits : size < 2 ^ 31) (eof : reading.cmdf = [])
    (sum : asInt reading.i = reading.i) :
    Finishes logType toStream size reading ↔ Lands logType toStream size reading.i (upToNul 0 reading.s) := by
  have asSize : (asInt size).toNat = size := by
    rw [asInt_eq (by omega) (by omega), Int.toNat_natCast]
  have read (reading : Reading) (eof : reading.cmdf = []) :
      fgets 10 0 (asInt size).toNat reading.s reading.cmdf = (reading.s, []) := by
    rw [asSize, eof, CString.fgets_eof room]
  constructor
  · rintro ⟨final, ends, -⟩
    induction ends with
    | stop enough => exact lands_iff.mpr (.inl (by rwa [sum]))
    | @next reading final more rest ih =>
      have last := read reading eof
      have later := ih (by rw [iteration_cmdf, last]) iteration_sum
      rw [iteration_record, last] at later
      refine lands_iff.mpr (.inr (lands_asInt.mp ?_))
      simpa [iteration, last] using later
  · rintro ⟨rounds, enough⟩
    induction rounds generalizing reading with
    | zero =>
      refine ⟨reading, .stop ?_, eof⟩
      simpa [again, sum] using enough
    | succ rounds ih =>
      by_cases more : reading.i < size
      · have last := read reading eof
        refine (finishes_next more).mpr (ih (by rw [iteration_cmdf, last]) iteration_sum ?_)
        rw [iteration_record, last]
        rw [again, Int.natCast_add, ← Int.add_assoc, ← asInt_add] at enough
        simpa [iteration, last] using enough
      · exact ⟨reading, .stop (by omega), eof⟩

theorem length_upToNul_le (text : List UInt8) : (upToNul 0 text).length ≤ text.length :=
  (List.takeWhile_sublist _).length_le

section

variable (room : 1 < size) (fits : size < 2 ^ 31) (more : reading.cmdf ≠ []) (low : 0 ≤ reading.i)
  (bound : reading.i + reading.cmdf.length ≤ size)
include room fits more low bound

theorem iteration_more : let piece := chunk 10 (size - 1) reading.cmdf
    let next := iteration logType toStream size reading
    reading.i < size ∧ next.i = reading.i + (upToNul 0 piece).length ∧
      next.cmdf = reading.cmdf.drop piece.length ∧ next.i + next.cmdf.length ≤ size ∧
      upToNul 0 next.s = leftOf logType toStream (upToNul 0 piece) := by
  intro piece next
  have asSize : (asInt size).toNat = size := by
    rw [asInt_eq (by omega) (by omega), Int.toNat_natCast]
  have read := @CString.fgets_more UInt8 _ 0 10 _ room reading.s _ more
  have some_ := length_pos_iff.mpr more
  have short : (upToNul 0 piece).length ≤ piece.length := length_upToNul_le _
  have front : firstLine 10 reading.cmdf <+: reading.cmdf :=
    ⟨_, (CString.firstLine_prefixed reading.cmdf).symm⟩
  have inside : piece.length ≤ reading.cmdf.length :=
    ((List.take_prefix _ _).trans front).length_le
  have consumed : next.cmdf = reading.cmdf.drop piece.length := by
    rw [iteration_cmdf, asSize, read]
  have record : upToNul 0 (fgets 10 0 (asInt size).toNat reading.s reading.cmdf).1 = upToNul 0 piece := by
    rw [asSize, read]
    exact CString.upToNul_append_nul _ _
  have sum : next.i = reading.i + (upToNul 0 piece).length := by
    rw [iteration_i, record, asInt_eq (by omega) (by omega)]
  refine ⟨by omega, sum, consumed, ?_, iteration_record.trans (congrArg _ record)⟩
  rw [sum, consumed, length_drop]
  omega

theorem finishes_lines (short : ∀ line ∈ lines 10 reading.cmdf, line.length < size) :
    Finishes logType toStream size reading ↔
      Lands logType toStream size (reading.i + strlens (lines 10 reading.cmdf))
        (leftOf logType toStream (upToNul 0 ((lines 10 reading.cmdf).getLastD []))) := by
  induction count : reading.cmdf.length using Nat.strongRecOn generalizing reading with
  | ind total ih =>
    obtain ⟨before, sum, consumed, inside, record⟩ :=
      @iteration_more logType toStream _ _ room fits more low bound
    have parts : lines 10 reading.cmdf = firstLine 10 reading.cmdf ::
        lines 10 (reading.cmdf.drop (firstLine 10 reading.cmdf).length) := by
      cases same : reading.cmdf with
      | nil => exact absurd same more
      | cons byte rest => exact CString.lines_cons byte rest
    have some_ := @CString.firstLine_ne_nil UInt8 _ 10 _ more
    rw [parts] at short ⊢
    have ⟨first, others⟩ := List.forall_mem_cons.mp short
    have whole : chunk 10 (size - 1) reading.cmdf = firstLine 10 reading.cmdf :=
      List.take_of_length_le (by omega)
    rw [whole] at sum consumed record
    rw [finishes_next before]
    rw [← consumed] at others ⊢
    generalize iteration logType toStream size reading = next at *
    by_cases eof : next.cmdf = []
    · rw [finishes_eof room fits eof (asInt_eq (by omega) (by omega)), eof, sum, record]
      simp [strlens, lines]
    · have fewer : next.cmdf.length < total := by
        have := length_pos_iff.mpr some_
        rw [consumed, length_drop]
        have := length_pos_iff.mpr more
        omega
      have last : (firstLine 10 reading.cmdf :: lines 10 next.cmdf).getLastD [] =
          (lines 10 next.cmdf).getLastD [] := by
        cases same : next.cmdf with
        | nil => exact absurd same eof
        | cons byte rest =>
          rw [CString.lines_cons]
          rfl
      rw [ih _ fewer eof (by omega) inside others rfl, sum, last, strlens, strlens, map_cons,
        sum_cons, Int.natCast_add, Int.add_assoc]

end

theorem pieces_flatten (content : List UInt8) : (pieces content).flatten = content := by
  rw [pieces]
  split
  · rw [flatten_cons, List.flatten_singleton, List.dropLast_eq_take, List.take_append_drop]
  · exact CString.lines_flatten content

theorem length_of_lines {content line : List UInt8} (several : lines 10 content ≠ [content])
    (member : line ∈ lines 10 content) : line.length < content.length := by
  cases content with
  | nil => exact absurd member List.not_mem_nil
  | cons byte rest =>
    have front := @CString.firstLine_prefixed UInt8 _ 10 (byte :: rest)
    have parts := @CString.lines_cons UInt8 _ 10 byte rest
    have some_ := @CString.firstLine_ne_nil UInt8 _ 10 _ (List.cons_ne_nil byte rest)
    generalize (byte :: rest).drop (firstLine 10 (byte :: rest)).length = behind at *
    generalize firstLine 10 (byte :: rest) = first at *
    have sum := congrArg List.length front
    rw [length_append] at sum
    rw [parts] at member several
    rcases List.mem_cons.mp member with rfl | later
    · have more : behind ≠ [] := by
        rintro rfl
        rw [List.append_nil] at front
        exact several (by rw [front]; rfl)
      have := length_pos_iff.mpr more
      omega
    · have within := (List.sublist_flatten_of_mem later).length_le
      rw [CString.lines_flatten] at within
      have := length_pos_iff.mpr some_
      omega

variable {content : List UInt8}

theorem replays_lands (room : 1 < content.length)
    (fits : content.length < 2 ^ 31) (memory : Vector UInt8 (content.length + 1)) :
    Replays logType toStream memory ↔ Lands logType toStream content.length (strlens (pieces content))
        (leftOf logType toStream (upToNul 0 (lastPiece content))) := by
  have more : content ≠ [] := List.ne_nil_of_length_pos (by omega)
  rw [Replays, lastPiece, pieces]
  split
  · next one =>
      have whole : firstLine 10 content = content := by
        cases same : content with
        | nil => exact absurd same more
        | cons byte rest =>
          rw [same, CString.lines_cons] at one
          exact (List.cons.inj one).1
      have piece : chunk 10 (content.length - 1) content = content.dropLast := by
        rw [chunk, whole, List.dropLast_eq_take]
      obtain ⟨before, sum, consumed, inside, -⟩ := @iteration_more logType toStream _
        ⟨memory.toList, content, 0, []⟩ room fits more (Int.le_refl 0) (by simp)
      dsimp only at sum consumed
      rw [piece] at sum consumed
      rw [finishes_next before]
      generalize iteration logType toStream content.length _ = next at *
      rw [length_dropLast] at consumed
      have single : next.cmdf.length = 1 := by
        rw [consumed, length_drop]
        omega
      obtain ⟨byte, last⟩ := List.length_eq_one_iff.mp single
      have line : lines 10 next.cmdf = [[byte]] := by simp [last, lines]
      rw [← consumed, finishes_lines room fits (List.ne_nil_of_length_pos (by omega))
        (by rw [sum]; omega) inside (by simpa [line] using room), line, last, sum]
      simp [strlens]
  · next several =>
      rw [finishes_lines room fits more (Int.le_refl 0) (by simp)
        fun line member => length_of_lines several member]
      rw [Int.zero_add]

@[simp] theorem leftOf_nil : leftOf logType toStream [] = [] := rfl

@[simp] theorem again_nil (rounds : Nat) : again logType toStream rounds [] = 0 := by
  induction rounds with
  | zero => rfl
  | succ rounds ih => rw [again, leftOf_nil, ih]; rfl

theorem leftOf_cases (record : List UInt8) : leftOf logType toStream record = record ∨ 2 < record.length ∧
      leftOf logType toStream record = record.dropLast ++ if toStream then [10] else [] := by
  rw [leftOf]
  by_cases long : 2 < record.length
  · rw [if_pos long]
    split
    · exact .inr ⟨long, rfl⟩
    · exact .inl rfl
  · rw [if_neg long]
    exact .inl rfl

theorem leftOf_ne_nil (some_ : record ≠ []) : leftOf logType toStream record ≠ [] := by
  rcases @leftOf_cases logType toStream record with same | ⟨long, cut⟩
  · rwa [same]
  · intro nothing
    rw [cut, List.append_eq_nil_iff] at nothing
    have shorter := congrArg List.length nothing.1
    rw [length_dropLast, length_nil] at shorter
    omega

theorem length_leftOf_le (record : List UInt8) : (leftOf logType toStream record).length ≤ record.length := by
  rcases @leftOf_cases logType toStream record with same | ⟨long, cut⟩
  · rw [same]
  · rw [cut, length_append, length_dropLast]
    have one : (if toStream then [10] else [] : List UInt8).length ≤ 1 := by
      cases toStream <;> simp
    omega

theorem lands_small (small : 2 * size ≤ 2 ^ 31) {i : Int}
    (low : 0 ≤ i) (high : i < 2 ^ 31) (some_ : record ≠ []) (short : record.length ≤ size) :
    Lands logType toStream size i record := by
  induction gap : (size - i).toNat using Nat.strongRecOn generalizing i record with
  | ind total ih =>
    have longer := length_pos_iff.mpr some_
    by_cases enough : size ≤ i
    · exact lands_iff.mpr (.inl (by rwa [asInt_eq (by omega) high]))
    · have shorter : (leftOf logType toStream record).length ≤ record.length :=
        length_leftOf_le record
      exact lands_iff.mpr (.inr (ih _ (by omega) (by omega) (by omega) (leftOf_ne_nil some_) (by omega) rfl))

variable {texts : List (List UInt8)}

theorem strlens_of_clean (clean : 0 ∉ texts.flatten) : strlens texts = texts.flatten.length := by
  induction texts with
  | nil => rfl
  | cons text rest ih =>
    rw [flatten_cons, List.mem_append, not_or] at clean
    have later := ih clean.2
    rw [strlens, map_cons, sum_cons, CString.upToNul_eq clean.1, ← strlens, later,
      flatten_cons, length_append]

theorem strlens_le (texts : List (List UInt8)) : strlens texts ≤ texts.flatten.length := by
  induction texts with
  | nil => exact Nat.le_refl 0
  | cons text rest ih =>
    have first := length_upToNul_le text
    rw [strlens, map_cons, sum_cons, ← strlens, flatten_cons, length_append]
    omega

theorem strlens_lt {text : List UInt8} (member : text ∈ texts)
    (empty : text.head? = some 0) : strlens texts < texts.flatten.length := by
  obtain ⟨before, after, rfl⟩ := List.append_of_mem member
  have front := strlens_le before
  have behind := strlens_le after
  cases text with
  | nil => exact absurd empty (by simp)
  | cons byte rest =>
    obtain rfl : byte = 0 := Option.some.inj empty
    have nothing : upToNul 0 (0 :: rest) = [] := List.takeWhile_cons_of_neg (by simp)
    simp only [strlens, List.map_append, map_cons, List.sum_append, sum_cons,
      nothing, length_nil, List.flatten_append, flatten_cons, length_append,
      List.length_cons] at front behind ⊢
    omega

theorem lastPiece_mem (more : content ≠ []) : lastPiece content ∈ pieces content := by
  have some_ : pieces content ≠ [] := by
    intro nothing
    have whole := pieces_flatten content
    rw [nothing] at whole
    exact more whole.symm
  rw [lastPiece, List.getLastD_eq_getLast?, List.getLast?_eq_some_getLast some_]
  exact List.getLast_mem some_

theorem lastPiece_ne_nil (room : 1 < content.length) : lastPiece content ≠ [] := by
  have member := lastPiece_mem (List.ne_nil_of_length_pos (by omega) : content ≠ [])
  intro nothing
  rw [nothing, pieces] at member
  split at member
  · rw [List.mem_cons, List.mem_singleton] at member
    rcases member with first | last
    · have := congrArg List.length first
      rw [length_dropLast, length_nil] at this
      omega
    · have := congrArg List.length last
      rw [length_drop, length_nil] at this
      omega
  · exact CString.nil_not_mem_lines content member

theorem upToNul_eq_nil_iff {text : List UInt8} (some_ : text ≠ []) :
    upToNul 0 text = [] ↔ text.head? = some 0 := by
  cases text with
  | nil => exact absurd rfl some_
  | cons byte rest => simp [upToNul, List.takeWhile_cons]

theorem lands_pieces (room : 1 < content.length) (fits : content.length < 2 ^ 31) :
    Lands logType toStream content.length (strlens (pieces content))
        (leftOf logType toStream (upToNul 0 (lastPiece content))) ↔
      (lastPiece content).head? ≠ some 0 ∧ (0 ∉ content ∨ content.length ≤ 2 ^ 30 ∨
        Lands logType toStream content.length (strlens (pieces content))
          (leftOf logType toStream (upToNul 0 (lastPiece content)))) := by
  have member := lastPiece_mem (List.ne_nil_of_length_pos (by omega) : content ≠ [])
  have within := strlens_le (pieces content)
  rw [pieces_flatten] at within
  constructor
  · intro lands
    refine ⟨fun empty => ?_, .inr (.inr lands)⟩
    have less := strlens_lt member empty
    have nothing := (upToNul_eq_nil_iff (lastPiece_ne_nil room)).mpr empty
    obtain ⟨rounds, enough⟩ := lands
    rw [pieces_flatten] at less
    rw [nothing, leftOf_nil, again_nil, Int.natCast_zero, Int.add_zero,
      asInt_eq (by omega) (by omega)] at enough
    omega
  · rintro ⟨some_, clean | small | lands⟩
    · refine lands_iff.mpr (.inl (Int.le_of_eq ?_))
      rw [strlens_of_clean (by rwa [pieces_flatten]), pieces_flatten, asInt_eq (by omega) (by omega)]
    · have short := length_upToNul_le (lastPiece content)
      have inside := (List.sublist_flatten_of_mem member).length_le
      have left := @length_leftOf_le logType toStream (upToNul 0 (lastPiece content))
      rw [pieces_flatten] at inside
      refine lands_small (by omega) (by omega) (by omega) (leftOf_ne_nil ?_) (by omega)
      rwa [Ne, upToNul_eq_nil_iff (lastPiece_ne_nil room)]
    · exact lands

theorem not_finishes_one (start : reading.i = 0) : ¬ Finishes logType toStream 1 reading := by
  rintro ⟨final, ends, -⟩
  induction ends with
  | stop enough => omega
  | @next reading final more rest ih =>
    refine ih ?_
    have one : (asInt (1 : Nat)).toNat = 1 := rfl
    have read : fgets 10 0 1 reading.s reading.cmdf = (reading.s.set 0 0, reading.cmdf) := rfl
    have nothing : upToNul 0 (reading.s.set 0 0) = [] := by
      cases reading.s with
      | nil => rfl
      | cons byte rest => exact List.takeWhile_cons_of_neg (by simp)
    rw [iteration_i, one, read, nothing, start]
    rfl

theorem asInt_lt (value : Int) : asInt value < 2 ^ 31 := by
  rw [asInt]
  split <;> omega

theorem not_finishes_large (large : 2 ^ 31 ≤ size) (low : reading.i < 2 ^ 31) :
    ¬ Finishes logType toStream size reading := by
  rintro ⟨final, ends, -⟩
  induction ends with
  | stop enough => omega
  | next _ _ ih => exact ih (asInt_lt _)

/-- A log file is read to its end exactly when it is empty, or has 2 to 2³¹ - 1 bytes, no NUL in
front of what is read last, and a sum of lengths that comes to an `int` not below its size. -/
theorem replays_iff {content : List UInt8} (memory : Vector UInt8 (content.length + 1)) :
    Replays logType toStream memory ↔ content = [] ∨
      1 < content.length ∧ content.length < 2 ^ 31 ∧ (lastPiece content).head? ≠ some 0 ∧
        (0 ∉ content ∨ content.length ≤ 2 ^ 30 ∨
          Lands logType toStream content.length (strlens (pieces content))
            (leftOf logType toStream (upToNul 0 (lastPiece content)))) := by
  by_cases room : 1 < content.length
  · have some_ : content ≠ [] := List.ne_nil_of_length_pos (by omega)
    by_cases fits : content.length < 2 ^ 31
    · refine ((replays_lands room fits memory).trans (lands_pieces room fits)).trans ?_
      rw [or_iff_right some_, and_iff_right room, and_iff_right fits]
    · have start : (0 : Int) < 2 ^ 31 := by decide
      have never := @not_finishes_large logType toStream _ ⟨memory.toList, content, 0, []⟩
        (not_lt.mp fits) start
      refine iff_of_false never ?_
      rintro (nothing | ⟨-, small, -⟩)
      · exact some_ nothing
      · exact fits small
  · cases content with
    | nil => exact iff_of_true ⟨_, .stop (Int.le_refl 0), rfl⟩ (.inl rfl)
    | cons byte rest =>
      obtain rfl : rest = [] := by
        rw [List.length_cons] at room
        exact List.length_eq_zero_iff.mp (by omega)
      have never := @not_finishes_one logType toStream ⟨memory.toList, [byte], 0, []⟩ rfl
      exact iff_of_false never (by simp)

theorem replays_one : ¬ @Replays .all false [97] (Vector.replicate 2 0) :=
  not_finishes_one rfl

end OpenSpeedShop.LogHistory
