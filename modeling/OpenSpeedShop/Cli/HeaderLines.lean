import OpenSpeedShop.Cli.HeaderLinesCore

/-!
The lines of a header: as many segments are counted as are made, and they fit their columns when every
line can end behind a word.
-/

namespace OpenSpeedShop.HeaderLines

open PlaceScan
open List (replicate ext_getElem length_pos_iff length_drop not_mem_nil)

variable {text : Text} {start startSegment width place : Nat}

def EndsWord (text : Text) (n : Nat) : Prop :=
  ∃ char, text[n - 1]? = some char ∧ char ≠ ' ' ∧ text[n]? = some ' '

/-- The last end of a word within the width, when a word of one letter at the start of
the text does not count. -/
structure LastWord (width : Nat) (text : Text) (n : Nat) : Prop where
  second : 2 ≤ n
  within : n ≤ width
  ends : EndsWord text n
  last : ∀ m, n < m → m ≤ width → ¬EndsWord text m

inductive Wraps (width : Nat) : Text → Prop
  | fits {text : Text} (short : (text.dropWhile isBlank).length ≤ width) : Wraps width text
  | breaks {text : Text} {n : Nat} (long : width < (text.dropWhile isBlank).length)
      (word : LastWord width (text.dropWhile isBlank) n)
      (wraps : Wraps width ((text.dropWhile isBlank).drop n)) : Wraps width text

theorem endsWord_drop {s n : Nat} (positive : 1 ≤ n) : EndsWord (text.drop s) n ↔ EndsWord text (s + n) := by
  rw [EndsWord, EndsWord, List.getElem?_drop, List.getElem?_drop, Nat.add_sub_assoc positive]

theorem EndsWord.lt {n : Nat} (ends : EndsWord text n) : n < text.length := by
  obtain ⟨_, _, _, blank⟩ := ends
  exact (List.getElem?_eq_some_iff.mp blank).1

theorem isBlank_iff {char : Char} : isBlank char = true ↔ char = ' ' := decide_eq_true_iff

theorem LastWord.unique {n m : Nat} (one : LastWord width text n) (other : LastWord width text m) : n = m := by
  rcases Nat.lt_trichotomy n m with less | same | more
  · exact absurd other.ends (one.last m less other.within)
  · exact same
  · exact absurd one.ends (other.last n more one.within)

theorem withoutTrailing_of_le : ∀ {endSegment : Nat}, endSegment ≤ startSegment →
    withoutTrailing text startSegment endSegment = endSegment
  | 0, _ => rfl
  | endSegment + 1, before => by
      rw [withoutTrailing, if_neg (by omega)]

theorem withoutTrailing_spec : ∀ {endSegment : Nat}, startSegment ≤ endSegment →
    startSegment ≤ withoutTrailing text startSegment endSegment ∧
      withoutTrailing text startSegment endSegment ≤ endSegment ∧
      (∀ m, withoutTrailing text startSegment endSegment < m → m ≤ endSegment → text[m]? = some ' ') ∧
      (withoutTrailing text startSegment endSegment = startSegment ∨
        text[withoutTrailing text startSegment endSegment]? ≠ some ' ') := by
  intro endSegment
  induction endSegment with
  | zero =>
    intro before
    refine ⟨before, Nat.le_refl 0, fun m above most => ?_, .inl (Nat.le_zero.mp before).symm⟩
    exact absurd above (Nat.not_lt.mpr most)
  | succ endSegment ih =>
    intro before
    rw [withoutTrailing]
    split
    · rename_i goesOn
      obtain ⟨lower, upper, blanks, stops⟩ := ih (by omega)
      refine ⟨lower, by omega, fun m above most => ?_, stops⟩
      rcases Nat.lt_or_eq_of_le most with less | rfl
      · exact blanks m above (by omega)
      · exact goesOn.2
    · rename_i stops
      refine ⟨before, Nat.le_refl _, fun m above most => by omega, ?_⟩
      by_cases first : endSegment + 1 = startSegment
      · exact .inl first
      · exact .inr fun blank => stops ⟨by omega, blank⟩

theorem breakFrom_fits (fits : text.length ≤ startSegment + width) (endSegment : Nat) :
    breakFrom text start startSegment width endSegment = text.length - 1 := by
  fun_induction breakFrom text start startSegment width endSegment with
  | case1 _ inside next overflow =>
    have most : next ≤ text.length := scan_le inside
    omega
  | case2 _ inside next overflow =>
    have most : next ≤ text.length := scan_le inside
    omega
  | case3 _ _ _ _ ih => exact ih
  | case4 => rfl

theorem breakFrom_overflows (long : startSegment + width < text.length) {endSegment : Nat} :
    endSegment ≤ startSegment + width → ∃ b, endSegment ≤ b ∧ b ≤ startSegment + width ∧
      (b = endSegment ∨ text[b]? = some ' ') ∧ (∀ m, b < m → m ≤ startSegment + width → text[m]? ≠ some ' ') ∧
      breakFrom text start startSegment width endSegment =
        if startSegment = withoutTrailing text startSegment b then (start : Int) + width
        else withoutTrailing text startSegment b := by
  fun_induction breakFrom text start startSegment width endSegment with
  | case1 endSegment inside next overflow trimmed single =>
    intro near
    refine ⟨endSegment, Nat.le_refl _, near, .inl rfl, fun m above most => ?_, ?_⟩
    · obtain ⟨char, found, letter⟩ := @passes_of_lt _ (!isBlank ·) text _ _ above (show m < next by omega)
      rw [found]
      simpa [isBlank] using letter
    · exact (if_pos single).symm
  | case2 endSegment inside next overflow trimmed several =>
    intro near
    refine ⟨endSegment, Nat.le_refl _, near, .inl rfl, fun m above most => ?_, ?_⟩
    · obtain ⟨char, found, letter⟩ := @passes_of_lt _ (!isBlank ·) text _ _ above (show m < next by omega)
      rw [found]
      simpa [isBlank] using letter
    · exact (if_neg several).symm
  | case3 endSegment inside next fits ih =>
    intro near
    obtain ⟨b, lower, upper, isBreak, last, result⟩ := ih (by omega)
    have later : endSegment + 1 ≤ next := le_scan
    refine ⟨b, by omega, upper, .inr ?_, last, result⟩
    rcases isBreak with rfl | blank
    · have within : next < text.length := by omega
      have stop := @not_passes _ (!isBlank ·) text _ _ (List.getElem?_eq_getElem within)
      rw [List.getElem?_eq_getElem within]
      simpa [isBlank] using stop
    · exact blank
  | case4 endSegment outside =>
    intro near
    omega

theorem drop_skipBlanks : text.drop (skipBlanks text place) = (text.drop place).dropWhile isBlank :=
  drop_scan

theorem skipBlanks_letter (inside : skipBlanks text place < text.length) :
    text[skipBlanks text place]? ≠ some ' ' := by
  have stop := @not_passes _ isBlank text _ _ (List.getElem?_eq_getElem inside)
  have found : text[skipBlanks text place]? = some text[skipBlanks text place] :=
    List.getElem?_eq_getElem inside
  intro blank
  rw [found] at blank
  exact absurd (isBlank_iff.mpr (Option.some.inj blank)) (Bool.eq_false_iff.mp stop)

theorem blank_of_lt_skipBlanks {m : Nat} (lower : place ≤ m) (upper : m < skipBlanks text place) :
    text[m]? = some ' ' := by
  obtain ⟨char, found, blank⟩ := passes_of_lt lower upper
  rw [found, isBlank_iff.mp blank]

theorem skipBlanks_self (stops : text[place]? ≠ some ' ') : skipBlanks text place = place := by
  by_cases inside : place < text.length
  · have found := List.getElem?_eq_getElem inside
    refine scan_of_not_passes found (Bool.eq_false_iff.mpr fun blank => stops ?_)
    rw [found, isBlank_iff.mp blank]
  · exact scan_of_length_le (Nat.le_of_not_lt inside)

theorem skipBlanks_le_length (inside : place ≤ text.length) : skipBlanks text place ≤ text.length :=
  scan_le inside

theorem le_skipBlanks : place ≤ skipBlanks text place := le_scan

theorem skipBlanks_le {m : Nat} (lower : place ≤ m) (stops : text[m]? ≠ some ' ') :
    skipBlanks text place ≤ m :=
  Nat.le_of_not_lt fun less => stops (blank_of_lt_skipBlanks lower less)

theorem last_break {b : Nat} (upper : b ≤ startSegment + width) (blank : text[b]? = some ' ')
    (inside : startSegment < text.length) (letter : text[startSegment]? ≠ some ' ')
    (after : startSegment ≤ b) (last : ∀ m, b < m → m ≤ startSegment + width → text[m]? ≠ some ' ') :
    (withoutTrailing text startSegment b = startSegment ∧
        ∀ m, 2 ≤ m → m ≤ width → ¬EndsWord text (startSegment + m)) ∨
      ∃ n, LastWord width (text.drop startSegment) n ∧ startSegment < withoutTrailing text startSegment b ∧
        withoutTrailing text startSegment b + 1 = startSegment + n := by
  obtain ⟨lower, most, blanks, stops⟩ := @withoutTrailing_spec text _ _ after
  -- no word ends between the last letter and the end of the field
  have none : ∀ m, 2 ≤ m → m ≤ width → withoutTrailing text startSegment b + 1 < startSegment + m →
      ¬EndsWord text (startSegment + m) := by
    rintro m second within past ⟨char, found, isLetter, isBreak⟩
    have before : startSegment + m ≤ b := Nat.le_of_not_lt fun less =>
      last (startSegment + m) less (by omega) isBreak
    rw [blanks (startSegment + m - 1) (by omega) (by omega)] at found
    exact isLetter (Option.some.inj found).symm
  rcases Nat.lt_or_eq_of_le lower with more | same
  · have short : withoutTrailing text startSegment b < b := by
      rcases Nat.lt_or_eq_of_le most with less | same
      · exact less
      · rcases stops with first | isLetter
        · omega
        · rw [same] at isLetter
          exact absurd blank isLetter
    refine .inr ⟨withoutTrailing text startSegment b + 1 - startSegment, ⟨by omega, by omega, ?_, ?_⟩,
      more, by omega⟩
    · rw [endsWord_drop (by omega)]
      have ended : startSegment + (withoutTrailing text startSegment b + 1 - startSegment) =
          withoutTrailing text startSegment b + 1 := by omega
      rw [ended]
      have within : withoutTrailing text startSegment b < text.length := by
        have far := (List.getElem?_eq_some_iff.mp blank).1
        omega
      refine ⟨_, List.getElem?_eq_getElem within, fun isSpace => ?_, blanks _ (by omega) (by omega)⟩
      rcases stops with first | isLetter
      · omega
      · exact isLetter (by rw [List.getElem?_eq_getElem within, isSpace])
    · intro m above within
      rw [endsWord_drop (by omega)]
      exact none m (by omega) within (by omega)
  · exact .inl ⟨same.symm, fun m second within => none m second within (by omega)⟩

inductive NextScan (text : Text) (width start letter : Nat) : Nat → Prop
  | fits (short : text.length ≤ letter + width) : NextScan text width start letter text.length
  | word {n : Nat} (long : letter + width < text.length)
      (last : LastWord width (text.drop letter) n) : NextScan text width start letter (letter + n)
  | cut (long : letter + width < text.length)
      (none : ∀ m, 2 ≤ m → m ≤ width → ¬EndsWord text (letter + m)) :
      NextScan text width start letter (start + width + 1)
  | blanks (before : start < letter) (long : letter + width < text.length)
      (none : ∀ m, 2 ≤ m → m ≤ width → ¬EndsWord text (letter + m)) :
      NextScan text width start letter letter

theorem nextScan_spec (width : Nat) (inside : start < text.length) :
    NextScan text width start (skipBlanks text start) (nextScan text start width) := by
  have past := skipBlanks_le_length (Nat.le_of_lt inside)
  have later : start ≤ skipBlanks text start := le_skipBlanks
  by_cases fits : text.length ≤ skipBlanks text start + width
  · have whole : nextScan text start width = text.length := by
      rw [nextScan, breakAt, breakFrom_fits fits]
      omega
    rw [whole]
    exact .fits fits
  · have long : skipBlanks text start + width < text.length := Nat.lt_of_not_le fits
    have within : skipBlanks text start < text.length := by omega
    have letter := skipBlanks_letter within
    obtain ⟨b, lower, upper, isBreak, last, result⟩ :=
      @breakFrom_overflows text start _ width long start (Nat.le_trans later (Nat.le_add_right _ width))
    -- no break behind `b` lies within the width
    have none : b ≤ skipBlanks text start → ∀ m, 2 ≤ m → m ≤ width →
        ¬EndsWord text (skipBlanks text start + m) := by
      rintro before m second most ⟨_, _, _, blank⟩
      exact last _ (by omega) (by omega) blank
    rw [nextScan, breakAt, result]
    rcases Nat.lt_trichotomy b (skipBlanks text start) with less | same | more
    · have adjacent : b = skipBlanks text start - 1 := by
        by_contra apart
        have blank := @blank_of_lt_skipBlanks text start (skipBlanks text start - 1) (by omega) (by omega)
        exact last (skipBlanks text start - 1) (by omega) (by omega) blank
      rw [withoutTrailing_of_le (Nat.le_of_lt less), if_neg (by omega)]
      have next : ((b : Int) + 1).toNat = skipBlanks text start := by omega
      rw [next]
      exact .blanks (by omega) long (none (Nat.le_of_lt less))
    · rw [withoutTrailing_of_le (Nat.le_of_eq same), if_pos same.symm]
      have next : ((start : Int) + width + 1).toNat = start + width + 1 := by omega
      rw [next]
      exact .cut long (none (Nat.le_of_eq same))
    · have blank : text[b]? = some ' ' := isBreak.resolve_left (by omega)
      rcases last_break upper blank within letter (Nat.le_of_lt more) last with
        ⟨same, empty⟩ | ⟨n, word, longer, next⟩
      · rw [same, if_pos rfl]
        have next : ((start : Int) + width + 1).toNat = start + width + 1 := by omega
        rw [next]
        exact .cut long empty
      · have several : skipBlanks text start ≠ withoutTrailing text (skipBlanks text start) b := by
          omega
        rw [if_neg several]
        have number : ((withoutTrailing text (skipBlanks text start) b : Int) + 1).toNat =
            skipBlanks text start + n := by omega
        rw [number]
        exact .word long word

theorem nextScan_le (width : Nat) (inside : start < text.length) : nextScan text start width ≤ text.length := by
  have later : start ≤ skipBlanks text start := le_skipBlanks
  have past := skipBlanks_le_length (Nat.le_of_lt inside)
  have spec := nextScan_spec width inside
  generalize nextScan text start width = next at spec ⊢
  cases spec with
  | fits => exact Nat.le_refl _
  | word long last =>
    have ended := (endsWord_drop (Nat.le_of_succ_le last.second)).mp last.ends
    exact Nat.le_of_lt ended.lt
  | cut => omega
  | blanks => exact past

theorem nextScan_mono {letter : Nat} (lower : start ≤ letter) (inside : letter < text.length)
    (stops : text[letter]? ≠ some ' ') : nextScan text start width ≤ nextScan text letter width := by
  have startInside := Nat.lt_of_le_of_lt lower inside
  have most := nextScan_le width startInside
  have first := skipBlanks_le lower stops
  have later : start ≤ skipBlanks text start := le_skipBlanks
  have self := skipBlanks_self stops
  have other := nextScan_spec width inside
  have one := nextScan_spec width startInside
  rw [self] at other
  generalize nextScan text letter width = second at other ⊢
  cases other with
  | fits => exact most
  | @word m long last =>
    generalize nextScan text start width = next at one most ⊢
    cases one with
    | fits => omega
    | @word n _ own =>
      by_contra less
      have ended := (endsWord_drop (Nat.le_of_succ_le own.second)).mp own.ends
      have within := own.within
      refine last.last (skipBlanks text start + n - letter) (by omega) (by omega) ?_
      rw [endsWord_drop (by omega), Nat.add_sub_cancel' (by omega)]
      exact ended
    | cut _ none =>
      by_contra less
      have ended := (endsWord_drop (Nat.le_of_succ_le last.second)).mp last.ends
      have second := last.second
      refine none (letter + m - skipBlanks text start) (by omega) (by omega) ?_
      rw [Nat.add_sub_cancel' (by omega)]
      exact ended
    | blanks => omega
  | cut long none =>
    generalize nextScan text start width = next at one most ⊢
    cases one with
    | fits => omega
    | word _ own =>
      have within := own.within
      omega
    | cut => omega
    | blanks => omega
  | blanks before => exact absurd before (Nat.lt_irrefl _)

theorem length_segmentsFrom_le (text : Text) (width place : Nat) : ∀ {start : Nat}, start ≤ place →
    (segmentsFrom text width place).length ≤ countFrom text width start := by
  fun_induction segmentsFrom text width place with
  | case1 place inside letter next =>
    rename_i ih
    intro start before
    rw [countFrom, if_pos (by omega), List.length_cons]
    refine Nat.succ_le_succ (ih ?_)
    have later : place ≤ letter := le_skipBlanks
    rcases Nat.lt_or_eq_of_le (skipBlanks_le_length (Nat.le_of_lt inside)) with less | ended
    · exact nextScan_mono (by omega) less (skipBlanks_letter less)
    · have whole : next = text.length := nextScan_end text width ended
      rw [whole]
      exact nextScan_le width (by omega)
  | case2 place outside => exact fun _ => Nat.zero_le _

theorem countFrom_fits (inside : start < text.length)
    (fits : text.length ≤ skipBlanks text start + width) : countFrom text width start = 1 := by
  have next : nextScan text start width = text.length := by
    rw [nextScan, breakAt, breakFrom_fits fits]
    omega
  rw [countFrom, if_pos inside, next, countFrom, if_neg (Nat.lt_irrefl _)]

theorem countPartitions_eq (some_ : text ≠ []) : countPartitions text width = countFrom text width 0 := by
  rw [countPartitions]
  split
  · rename_i short
    have inside : 0 < text.length := length_pos_iff.mpr some_
    exact (countFrom_fits inside (by omega)).symm
  · rfl

theorem countPartitions_pos (some_ : text ≠ []) : 0 < countPartitions text width := by
  rw [countPartitions_eq some_, countFrom, if_pos (length_pos_iff.mpr some_)]
  exact Nat.succ_pos _

theorem length_segments_le (width : Nat) (some_ : text ≠ []) :
    (segmentsFrom text width 0).length ≤ countPartitions text width := by
  rw [countPartitions_eq some_]
  exact length_segmentsFrom_le text width 0 (Nat.le_refl 0)

inductive GivesBack : Text → List Text → Prop
  | nil : GivesBack [] []
  | cons {blanks segment rest : Text} {segments : List Text} (skipped : ∀ char ∈ blanks, char = ' ')
      (others : GivesBack rest segments) : GivesBack (blanks ++ (segment ++ rest)) (segment :: segments)

theorem givesBack_segmentsFrom (text : Text) (width place : Nat) :
    GivesBack (text.drop place) (segmentsFrom text width place) := by
  fun_induction segmentsFrom text width place with
  | case1 place inside letter next =>
    rename_i ih
    have last : letter ≤ text.length := skipBlanks_le_length (Nat.le_of_lt inside)
    have later : letter ≤ next := by
      rcases Nat.lt_or_eq_of_le last with less | ended
      · exact Nat.le_of_lt (lt_nextScan less)
      · have whole : next = text.length := nextScan_end text width ended
        omega
    have front : (text.drop place).takeWhile isBlank ++ text.drop letter = text.drop place := by
      rw [show text.drop letter = (text.drop place).dropWhile isBlank from drop_skipBlanks]
      exact List.takeWhile_append_dropWhile
    have back : (text.drop letter).take (next - letter) ++ text.drop next = text.drop letter := by
      have split := List.take_append_drop (next - letter) (text.drop letter)
      rwa [List.drop_drop, Nat.add_sub_cancel' later] at split
    rw [← front]
    nth_rewrite 1 [← back]
    refine .cons (fun char member => ?_) ih
    exact isBlank_iff.mp (List.all_eq_true.mp List.all_takeWhile char member)
  | case2 place outside =>
    rw [List.drop_of_length_le (Nat.le_of_not_lt outside)]
    exact .nil

theorem GivesBack.empties : ∀ k : Nat, GivesBack [] (replicate k [])
  | 0 => .nil
  | k + 1 => @GivesBack.cons [] [] [] _ (fun _ member => absurd member not_mem_nil) (GivesBack.empties k)

theorem GivesBack.append_empties {segments : List Text} (gives : GivesBack text segments) (k : Nat) :
    GivesBack text (segments ++ replicate k []) := by
  induction gives with
  | nil => exact GivesBack.empties k
  | cons skipped _ ih => exact .cons skipped ih

theorem wraps_end (width : Nat) (text : Text) {place : Nat} (past : text.length ≤ place) :
    Wraps width (text.drop place) := by
  rw [List.drop_of_length_le past]
  exact .fits (Nat.zero_le width)

theorem wraps_of_long {n : Nat} (long : width < (text.dropWhile isBlank).length)
    (word : LastWord width (text.dropWhile isBlank) n) :
    Wraps width text ↔ Wraps width ((text.dropWhile isBlank).drop n) := by
  refine ⟨fun wraps => ?_, .breaks long word⟩
  cases wraps with
  | fits short => exact absurd long (Nat.not_lt.mpr short)
  | breaks _ other wraps =>
    rw [word.unique other]
    exact wraps

theorem not_wraps (long : width < (text.dropWhile isBlank).length)
    (none : ∀ n, ¬LastWord width (text.dropWhile isBlank) n) : ¬Wraps width text := by
  intro wraps
  cases wraps with
  | fits short => exact absurd long (Nat.not_lt.mpr short)
  | breaks _ word _ => exact none _ word

theorem segments_fit_iff (text : Text) (width place : Nat) :
    (∀ segment ∈ segmentsFrom text width place, segment.length ≤ width) ↔ Wraps width (text.drop place) := by
  fun_induction segmentsFrom text width place with
  | case1 place inside letter next =>
    rename_i ih
    have rest : (text.drop place).dropWhile isBlank = text.drop letter := drop_skipBlanks.symm
    have last : letter ≤ text.length := skipBlanks_le_length (Nat.le_of_lt inside)
    rcases Nat.lt_or_eq_of_le last with within | ended
    · have self : skipBlanks text letter = letter := skipBlanks_self (skipBlanks_letter within)
      have spec : NextScan text width letter (skipBlanks text letter) next :=
        nextScan_spec width within
      have size := length_drop (i := letter) (l := text)
      rw [self] at spec
      clear_value letter next
      rw [List.forall_mem_cons, ih, List.length_take, size]
      cases spec with
      | fits short =>
        refine iff_of_true ⟨by omega, wraps_end width text (Nat.le_refl _)⟩ (.fits ?_)
        rw [rest, size]
        omega
      | @word n long last =>
        have within := last.within
        have step := @wraps_of_long (text.drop place) width n (by rw [rest, size]; omega)
          (by rw [rest]; exact last)
        rw [step, rest, List.drop_drop]
        exact and_iff_right (by omega)
      | cut long none =>
        refine iff_of_false (fun both => by omega) (not_wraps (by rw [rest, size]; omega) ?_)
        intro n word
        rw [rest] at word
        have ended := (endsWord_drop (Nat.le_of_succ_le word.second)).mp word.ends
        exact none n word.second word.within ended
      | blanks before => exact absurd before (Nat.lt_irrefl _)
    · have whole : next = text.length := nextScan_end text width ended
      rw [List.forall_mem_cons, ih, List.length_take, length_drop, whole]
      refine iff_of_true ⟨by omega, wraps_end width text (Nat.le_refl _)⟩ (.fits ?_)
      rw [rest, length_drop]
      omega
  | case2 place outside =>
    exact iff_of_true (fun _ member => absurd member not_mem_nil)
      (wraps_end width text (Nat.le_of_not_lt outside))

theorem length_rest (text : Text) : (text.dropWhile isBlank).length = text.length - skipBlanks text 0 := by
  rw [← length_drop, drop_skipBlanks]
  rfl

theorem segmentsFrom_inside (inside : place < text.length) : segmentsFrom text width place =
      (text.drop (skipBlanks text place)).take
          (nextScan text (skipBlanks text place) width - skipBlanks text place) ::
        segmentsFrom text width (nextScan text (skipBlanks text place) width) := by
  rw [segmentsFrom, if_pos inside]

theorem two_segments (wraps : Wraps width text) (long : width < (text.dropWhile isBlank).length) :
    1 < countPartitions text width := by
  have rest : text.dropWhile isBlank = text.drop (skipBlanks text 0) :=
    (@drop_skipBlanks text 0).symm
  have size := length_rest text
  have within : skipBlanks text 0 < text.length := by omega
  have some_ : text ≠ [] := List.ne_nil_of_length_pos (by omega)
  have next : nextScan text (skipBlanks text 0) width < text.length := by
    have spec := nextScan_spec width within
    rw [skipBlanks_self (skipBlanks_letter within)] at spec
    cases wraps with
    | fits short => omega
    | @breaks _ n _ word _ =>
      rw [rest] at word
      have ended := (endsWord_drop (Nat.le_of_succ_le word.second)).mp word.ends
      generalize nextScan text (skipBlanks text 0) width = next at spec ⊢
      cases spec with
      | fits => omega
      | word _ last =>
        rw [last.unique word]
        exact ended.lt
      | cut _ none => exact absurd ended (none n word.second word.within)
      | blanks before => exact absurd before (Nat.lt_irrefl _)
  have most := length_segments_le width some_
  rw [segmentsFrom_inside (length_pos_iff.mpr some_), segmentsFrom_inside next] at most
  exact Nat.lt_of_lt_of_le (Nat.succ_le_succ (Nat.succ_pos _)) most

theorem countPartitions_fits (some_ : text ≠ []) (fits : (text.dropWhile isBlank).length ≤ width) :
    countPartitions text width = 1 := by
  rw [length_rest] at fits
  rw [countPartitions_eq some_]
  exact countFrom_fits (length_pos_iff.mpr some_) (by omega)

theorem le_maxBreaksFrom (pc : PrintControl) (headers : List Text) : ∀ maxBreaks column : Nat,
    maxBreaks ≤ maxBreaksFrom pc maxBreaks column headers := by
  induction headers with
  | nil => exact fun _ _ => Nat.le_refl _
  | cons header headers ih =>
    intro maxBreaks column
    refine Nat.le_trans ?_ (ih _ (column + 1))
    split <;> omega

def IsColumn (headers : List Text) (column : Nat) (header : Text) : Prop :=
  headers.dropLast[column]? = some header

theorem count_le_maxBreaksFrom (pc : PrintControl) (headers : List Text) :
    ∀ {maxBreaks column i : Nat} {header : Text}, headers[i]? = some header → header ≠ [] →
      countPartitions header (pc.useColumnsize (column + i)) ≤ maxBreaksFrom pc maxBreaks column headers := by
  induction headers with
  | nil =>
    intro maxBreaks column i header found
    cases found
  | cons first headers ih =>
    intro maxBreaks column i header found some_
    cases i with
    | zero =>
      obtain rfl := Option.some.inj found
      refine Nat.le_trans ?_ (le_maxBreaksFrom pc headers _ (column + 1))
      rw [if_neg some_]
      exact Nat.le_max_right _ _
    | succ i =>
      have later := @ih (if first = [] then maxBreaks
        else max maxBreaks (countPartitions first (pc.useColumnsize column))) (column + 1) i
        header found some_
      rwa [Nat.add_right_comm] at later

theorem maxBreaksFrom_le (pc : PrintControl) (headers : List Text) :
    ∀ {maxBreaks column bound : Nat}, maxBreaks ≤ bound →
      (∀ i header, headers[i]? = some header → header ≠ [] →
        countPartitions header (pc.useColumnsize (column + i)) ≤ bound) →
      maxBreaksFrom pc maxBreaks column headers ≤ bound := by
  induction headers with
  | nil => exact fun lower _ => lower
  | cons first headers ih =>
    intro maxBreaks column bound lower counts
    refine ih ?_ fun i header found some_ => ?_
    · split
      · exact lower
      · rename_i some_
        exact Nat.max_le.mpr ⟨lower, counts 0 first rfl some_⟩
    · have count := counts (i + 1) header found some_
      rwa [Nat.add_right_comm]

theorem addHeaders_eq (lines : List (List Text)) : ∀ {headers : List Text},
    headers.length ≤ lines.length → addHeaders lines headers =
      some (lines.mapIdx fun place line => line ++ [headers.getD place []]) := by
  induction lines with
  | nil =>
    intro headers short
    rw [List.eq_nil_of_length_eq_zero (Nat.le_zero.mp short)]
    rfl
  | cons line lines ih =>
    intro headers short
    cases headers with
    | nil =>
      refine congrArg some (ext_getElem (by simp) fun place _ _ => ?_)
      rw [List.getElem_map, List.getElem_mapIdx]
      rfl
    | cons header headers =>
      rw [addHeaders, ih (Nat.le_of_succ_le_succ short), List.mapIdx_cons]
      rfl

def cells (pc : PrintControl) (column place : Nat) (headers : List Text) : List Text :=
  headers.mapIdx fun i header =>
    (segmentsFrom header (pc.useColumnsize (column + i)) 0).getD place []

theorem cells_cons (pc : PrintControl) (column place : Nat) (header : Text) (headers : List Text) :
    cells pc column place (header :: headers) =
      (segmentsFrom header (pc.useColumnsize column) 0).getD place [] ::
        cells pc (column + 1) place headers := by
  simp only [cells, List.mapIdx_cons, Nat.add_zero, Nat.add_right_comm, ← Nat.add_assoc]

theorem fillLines_eq (pc : PrintControl) (headers : List Text) :
    ∀ {column : Nat} {lines : List (List Text)}, (∀ i header, headers[i]? = some header →
      (segmentsFrom header (pc.useColumnsize (column + i)) 0).length ≤ lines.length) →
      fillLines pc column lines headers =
        some (lines.mapIdx fun place line => line ++ cells pc column place headers) := by
  induction headers with
  | nil =>
    intro column lines _
    refine congrArg some (ext_getElem (by simp) fun place _ _ => ?_)
    simp [cells]
  | cons header headers ih =>
    intro column lines enough
    have first := addHeaders_eq lines (enough 0 header rfl)
    rw [fillLines, Nat.add_zero] at *
    rw [first, Option.bind_eq_bind, Option.bind_some, ih]
    · rw [List.mapIdx_mapIdx]
      refine congrArg some (congrArg (List.mapIdx · lines) ?_)
      funext place line
      rw [Function.comp_apply, cells_cons, List.append_assoc]
      rfl
    · intro i later found
      have bound := enough (i + 1) later found
      rwa [List.length_mapIdx, Nat.add_right_comm]

def column (lines : List (List Text)) (i : Nat) : List Text := lines.map (·.getD i [])

structure Wrapped (pc : PrintControl) (headers : List Text) (lines : List (List Text)) : Prop where
  rectangular : ∀ line ∈ lines, line.length = headers.length
  counted : ∀ i header, IsColumn headers i header →
    (segmentsFrom header (pc.useColumnsize i) 0).length ≤ maxBreaksFrom pc 0 0 headers.dropLast
  short : ∀ i header, IsColumn headers i header → ∀ cell ∈ column lines i, cell.length ≤ pc.useColumnsize i
  whole : ∀ i header, IsColumn headers i header → GivesBack header (column lines i)

def PrintsWrapped (pc : PrintControl) (headers : List Text) : Prop :=
  ∃ lines, printHeader pc headers = some lines ∧ Wrapped pc headers lines

variable {pc : PrintControl} {headers : List Text}

theorem segments_le_maxBreaks (i : Nat) (header : Text) (isColumn : IsColumn headers i header) :
    (segmentsFrom header (pc.useColumnsize i) 0).length ≤ maxBreaksFrom pc 0 0 headers.dropLast := by
  by_cases some_ : header = []
  · rw [some_, segmentsFrom, if_neg (by simp)]
    exact Nat.zero_le _
  · have counted := @count_le_maxBreaksFrom pc headers.dropLast 0 0 i header isColumn some_
    rw [Nat.zero_add] at counted
    exact Nat.le_trans (length_segments_le _ some_) counted

theorem printHeader_single (some_ : headers ≠ [])
    (single : maxBreaksFrom pc 0 0 headers.dropLast = 1) : printHeader pc headers = some [headers] := by
  rw [printHeader, List.getLast?_eq_some_getLast some_]
  exact if_pos single

theorem printHeader_broken (some_ : headers ≠ [])
    (broken : maxBreaksFrom pc 0 0 headers.dropLast ≠ 1) : printHeader pc headers =
      addHeaders ((List.range (maxBreaksFrom pc 0 0 headers.dropLast)).map fun place =>
        cells pc 0 place headers.dropLast) [headers.getLast some_] := by
  have enough : ∀ i header, headers.dropLast[i]? = some header →
      (segmentsFrom header (pc.useColumnsize (0 + i)) 0).length ≤
        (replicate (maxBreaksFrom pc 0 0 headers.dropLast) ([] : List Text)).length := by
    intro i header found
    rw [Nat.zero_add, List.length_replicate]
    exact segments_le_maxBreaks i header found
  have filled := fillLines_eq pc headers.dropLast enough
  have lines : (replicate (maxBreaksFrom pc 0 0 headers.dropLast) ([] : List Text)).mapIdx
      (fun place line => line ++ cells pc 0 place headers.dropLast) =
        (List.range (maxBreaksFrom pc 0 0 headers.dropLast)).map fun place =>
          cells pc 0 place headers.dropLast :=
    ext_getElem (by simp) fun place _ _ => by simp
  rw [lines] at filled
  rw [printHeader, List.getLast?_eq_some_getLast some_]
  dsimp only
  rw [if_neg broken, filled, Option.bind_eq_bind, Option.bind_some]

theorem printHeader_none (nothing : maxBreaksFrom pc 0 0 headers.dropLast = 0) :
    printHeader pc headers = none := by
  by_cases some_ : headers = []
  · rw [some_]
    rfl
  · rw [printHeader_broken some_ (by omega), nothing]
    rfl

theorem printHeader_several (some_ : headers ≠ [])
    (several : 1 < maxBreaksFrom pc 0 0 headers.dropLast) : printHeader pc headers =
      some ((List.range (maxBreaksFrom pc 0 0 headers.dropLast)).map fun place =>
        cells pc 0 place headers.dropLast ++ [[headers.getLast some_].getD place []]) := by
  rw [printHeader_broken some_ (by omega), addHeaders_eq _ (by simp; omega)]
  exact congrArg some (ext_getElem (by simp) fun place _ _ => by simp)

theorem range_getD (segments : List Text) : ∀ {k : Nat}, segments.length ≤ k →
    (List.range k).map (segments.getD · []) = segments ++ replicate (k - segments.length) [] := by
  intro k enough
  refine ext_getElem (by simp; omega) fun place _ _ => ?_
  by_cases inside : place < segments.length
  · simp [inside, List.getElem_append_left]
  · rw [List.getElem_append_right (Nat.le_of_not_lt inside)]
    simp [inside]

theorem maxBreaks_eq_zero_iff :
    maxBreaksFrom pc 0 0 headers.dropLast = 0 ↔ ∀ header ∈ headers.dropLast, header = [] := by
  constructor
  · intro zero header member
    by_contra some_
    obtain ⟨i, found⟩ := List.mem_iff_getElem?.mp member
    have counted := @count_le_maxBreaksFrom pc headers.dropLast 0 0 i header found some_
    have positive := @countPartitions_pos header (pc.useColumnsize (0 + i)) some_
    omega
  · intro empty
    refine Nat.le_zero.mp (maxBreaksFrom_le pc _ (Nat.le_refl 0) fun i header found some_ => ?_)
    exact absurd (empty header (List.mem_of_getElem? found)) some_

theorem column_several {i : Nat} {header last : Text} (isColumn : IsColumn headers i header) :
    column ((List.range (maxBreaksFrom pc 0 0 headers.dropLast)).map fun place =>
        cells pc 0 place headers.dropLast ++ [[last].getD place []]) i =
      segmentsFrom header (pc.useColumnsize i) 0 ++ replicate
        (maxBreaksFrom pc 0 0 headers.dropLast - (segmentsFrom header (pc.useColumnsize i) 0).length) [] := by
  rw [← range_getD _ (segments_le_maxBreaks i header isColumn), column, List.map_map]
  refine List.map_congr_left fun place _ => ?_
  have inside := (List.getElem?_eq_some_iff.mp isColumn).1
  have own := (List.getElem?_eq_some_iff.mp isColumn).2
  rw [Function.comp_apply, List.getD_eq_getElem?_getD,
    List.getElem?_append_left (by simpa [cells] using inside)]
  simp only [cells, List.getElem?_mapIdx, List.getElem?_eq_getElem inside, own, Option.map_some,
    Option.getD_some, Nat.zero_add]

theorem wrapped_several_iff {last : Text} (some_ : headers ≠ []) :
    Wrapped pc headers ((List.range (maxBreaksFrom pc 0 0 headers.dropLast)).map fun place =>
        cells pc 0 place headers.dropLast ++ [[last].getD place []]) ↔
      ∀ i header, IsColumn headers i header → Wraps (pc.useColumnsize i) header := by
  have size : headers.dropLast.length + 1 = headers.length := by
    have positive := length_pos_iff.mpr some_
    rw [List.length_dropLast]
    omega
  constructor
  · intro wrapped i header isColumn
    refine (segments_fit_iff header _ 0).mp fun segment member => ?_
    have short := wrapped.short i header isColumn segment
    rw [column_several isColumn] at short
    exact short (List.mem_append_left _ member)
  · intro wraps
    refine ⟨fun line member => ?_, segments_le_maxBreaks, fun i header isColumn cell among => ?_,
      fun i header isColumn => ?_⟩
    · obtain ⟨place, _, rfl⟩ := List.mem_map.mp member
      rw [List.length_append, cells, List.length_mapIdx, List.length_singleton, size]
    · rw [column_several isColumn, List.mem_append] at among
      rcases among with cut | padded
      · exact (segments_fit_iff header _ 0).mpr (wraps i header isColumn) cell cut
      · rw [(List.mem_replicate.mp padded).2]
        exact Nat.zero_le _
    · rw [column_several isColumn]
      exact (givesBack_segmentsFrom header _ 0).append_empties _

theorem getD_of_isColumn {i : Nat} {header : Text} (isColumn : IsColumn headers i header) :
    headers.getD i [] = header := by
  obtain ⟨inside, rfl⟩ := List.getElem?_eq_some_iff.mp isColumn
  rw [List.length_dropLast] at inside
  rw [List.getElem_dropLast, List.getD_eq_getElem?_getD, List.getElem?_eq_getElem (by omega), Option.getD_some]

theorem wrapped_single_iff : Wrapped pc headers [headers] ↔
    ∀ i header, IsColumn headers i header → header.length ≤ pc.useColumnsize i := by
  have own : ∀ i header, IsColumn headers i header → column [headers] i = [header] :=
    fun i header isColumn => congrArg (fun cell => [cell]) (getD_of_isColumn isColumn)
  constructor
  · intro wrapped i header isColumn
    have short := wrapped.short i header isColumn header
    rw [own i header isColumn] at short
    exact short List.mem_cons_self
  · intro fits
    refine ⟨fun line member => ?_, segments_le_maxBreaks, fun i header isColumn cell among => ?_,
      fun i header isColumn => ?_⟩
    · rw [List.mem_singleton.mp member]
    · rw [own i header isColumn, List.mem_singleton] at among
      rw [among]
      exact fits i header isColumn
    · rw [own i header isColumn]
      have whole := @GivesBack.cons [] header [] [] (fun _ member => absurd member not_mem_nil) .nil
      rwa [List.append_nil, List.nil_append] at whole

theorem maxBreaks_le_one (fits : ∀ i header, IsColumn headers i header →
    (header.dropWhile isBlank).length ≤ pc.useColumnsize i) : maxBreaksFrom pc 0 0 headers.dropLast ≤ 1 := by
  refine maxBreaksFrom_le pc _ (Nat.zero_le 1) fun i header found some_ => ?_
  rw [Nat.zero_add]
  exact Nat.le_of_eq (countPartitions_fits some_ (fits i header found))

theorem one_lt_maxBreaks {i : Nat} {header : Text} (isColumn : IsColumn headers i header)
    (long : pc.useColumnsize i < (header.dropWhile isBlank).length)
    (wraps : Wraps (pc.useColumnsize i) header) : 1 < maxBreaksFrom pc 0 0 headers.dropLast := by
  have some_ : header ≠ [] := by
    rintro rfl
    exact absurd long (Nat.not_lt_zero _)
  have counted := @count_le_maxBreaksFrom pc headers.dropLast 0 0 i header isColumn some_
  rw [Nat.zero_add] at counted
  exact Nat.lt_of_lt_of_le (two_segments wraps long) counted

/-- The lines of a header fit and are complete exactly when there is a text before the last one, and every
text fits its column or, if one does not, all can be filled line by line. -/
theorem printHeader_wraps_iff (pc : PrintControl) (headers : List Text) :
    PrintsWrapped pc headers ↔ (∃ header ∈ headers.dropLast, header ≠ []) ∧
      ((∀ i header, IsColumn headers i header → header.length ≤ pc.useColumnsize i) ∨
        (∃ i header, IsColumn headers i header ∧ pc.useColumnsize i < (header.dropWhile isBlank).length) ∧
        ∀ i header, IsColumn headers i header → Wraps (pc.useColumnsize i) header) := by
  by_cases empty : ∀ header ∈ headers.dropLast, header = []
  · have nothing := printHeader_none ((@maxBreaks_eq_zero_iff pc headers).mpr empty)
    refine iff_of_false ?_ ?_
    · rintro ⟨lines, printed, _⟩
      rw [nothing] at printed
      cases printed
    · rintro ⟨⟨header, member, some_⟩, _⟩
      exact some_ (empty header member)
  · have broken : maxBreaksFrom pc 0 0 headers.dropLast ≠ 0 :=
      fun zero => empty (maxBreaks_eq_zero_iff.mp zero)
    push Not at empty
    have some_ : headers ≠ [] := by
      rintro rfl
      obtain ⟨_, member, _⟩ := empty
      cases member
    rw [and_iff_right empty]
    by_cases single : maxBreaksFrom pc 0 0 headers.dropLast = 1
    · simp only [PrintsWrapped, printHeader_single some_ single, Option.some.injEq,
        exists_eq_left', wrapped_single_iff]
      refine ⟨.inl, fun either => either.resolve_right ?_⟩
      rintro ⟨⟨i, header, isColumn, long⟩, wraps⟩
      have several := one_lt_maxBreaks isColumn long (wraps i header isColumn)
      omega
    · have several : 1 < maxBreaksFrom pc 0 0 headers.dropLast := by omega
      simp only [PrintsWrapped, printHeader_several some_ several, Option.some.injEq,
        exists_eq_left', wrapped_several_iff some_]
      constructor
      · intro wraps
        refine .inr ⟨?_, wraps⟩
        by_contra none
        have few : maxBreaksFrom pc 0 0 headers.dropLast ≤ 1 :=
          maxBreaks_le_one fun i header isColumn =>
            Nat.le_of_not_lt fun long => none ⟨i, header, isColumn, long⟩
        omega
      · rintro (fits | ⟨_, wraps⟩)
        · have few : maxBreaksFrom pc 0 0 headers.dropLast ≤ 1 :=
            maxBreaks_le_one fun i header isColumn =>
              Nat.le_trans (List.dropWhile_sublist isBlank).length_le (fits i header isColumn)
          omega
        · exact wraps

theorem emptyHeader_indexes_outside : ¬∀ (pc : PrintControl) (headers : List Text),
    (∀ i, 1 ≤ pc.useColumnsize i) → PrintsWrapped pc headers := by
  intro always
  obtain ⟨lines, printed, _⟩ := always ⟨none, 20⟩ [[], ['x']] fun _ => Nat.succ_pos 19
  rw [printHeader_none (by decide)] at printed
  cases printed

end OpenSpeedShop.HeaderLines
