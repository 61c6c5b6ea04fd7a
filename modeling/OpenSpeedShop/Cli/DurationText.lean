import OpenSpeedShop.Framework.RawDataFiles
import OpenSpeedShop.Library.DecimalText
import Mathlib.Data.List.SplitOn

/-!
The text of a duration in a view, and what a reader takes it for.
-/

namespace OpenSpeedShop

open Nat (toDigits mod_lt)

namespace DurationText

def timeScale : Nat := 1000000000

def minute : Nat := timeScale * 60

def hour : Nat := timeScale * 60 * 60

def day : Nat := timeScale * 60 * 60 * 24

structure Output where
  text : Text
  remaining : Nat
  started : Bool

/-- `form << (remaining / threshold) << separator; remaining = (remaining % threshold)` -/
def Output.field (output : Output) (threshold : Nat) (separator : Char) : Output where
  text := output.text ++ Nat.toDigits 10 (output.remaining / threshold) ++ [separator]
  remaining := output.remaining % threshold
  started := true

def Output.fieldIf (output : Output) (condition : Bool) (threshold : Nat) (separator : Char) :
    Output :=
  if condition then output.field threshold separator else output

def Output.days (output : Output) : Output :=
  output.fieldIf (day ≤ output.remaining) day ':'

def Output.hours (output : Output) : Output :=
  output.fieldIf (hour ≤ output.remaining) hour ':'

def Output.minutes (output : Output) : Output :=
  output.fieldIf (output.started || minute ≤ output.remaining) minute ':'

def Output.seconds (output : Output) : Output :=
  output.fieldIf (output.started || timeScale ≤ output.remaining) timeScale '.'

def Output.fraction (output : Output) (precision : Int64) : Text :=
  let digits := Nat.toDigits 10 output.remaining
  if output.remaining = 0 then ['0']
  else if !output.started && output.remaining < 1000000 then digits
  else if digits.length < precision.toUInt64.toNat then digits
  else digits.take precision.toUInt64.toNat

def form (precision : Int64) (duration : Nat) : Text :=
  let output := (Output.mk [] duration false).days.hours.minutes.seconds
  (if output.started then output.text else output.text ++ ['0', '.']) ++ output.fraction precision

structure Decimal where
  units : Nat
  digits : Nat
deriving DecidableEq

instance : LE Decimal where
  le first second := first.units * 10 ^ second.digits ≤ second.units * 10 ^ first.digits

/-- `[[days:]hours:]minutes:]seconds` -/
def wholeSeconds : List Nat → Option Nat
  | [seconds] => some seconds
  | [minutes, seconds] => some (minutes * 60 + seconds)
  | [hours, minutes, seconds] => some ((hours * 60 + minutes) * 60 + seconds)
  | [days, hours, minutes, seconds] =>
    some (((days * 24 + hours) * 60 + minutes) * 60 + seconds)
  | _ => none

/-- `[[days:]hours:]minutes:]seconds.fraction` -/
def read (text : Text) : Option Decimal :=
  match text.splitOn '.' with
  | [whole, fraction] => do
      let seconds ← wholeSeconds (← (whole.splitOn ':').mapM DecimalText.number?)
      if fraction.all Char.isDigit then
        some ⟨seconds * 10 ^ fraction.length + DecimalText.value fraction, fraction.length⟩
      else none
  | _ => none

def truncated (digits duration : Nat) : Decimal := ⟨duration * 10 ^ digits / timeScale, digits⟩

def Faithful (precision : Int64) (duration : Nat) : Prop :=
  ∃ digits, read (form precision duration) = some (truncated digits duration)

def Legible (precision : Int64) (duration : Nat) : Prop :=
  (duration < day ∨ hour ≤ duration % day) ∧
    (duration % timeScale = 0 ∨ 100000000 ≤ duration % timeScale ∨ precision = 0 ∧ 1000000 ≤ duration)

def displayUnit (precision : Int64) : Nat := 10 ^ (9 - precision.toUInt64.toNat)

end DurationText

/-!
What the texts of durations denote: days without hours are read as hours, and
the fraction lacks its leading zeros.
-/

namespace DurationText

variable {precision : Int64} {duration : Nat}

def shownFields (duration : Nat) : List Nat :=
  if day ≤ duration then
    if hour ≤ duration % day then
      [duration / day, duration % day / hour, duration % hour / minute, duration % minute / timeScale]
    else [duration / day, duration % day / minute, duration % minute / timeScale]
  else if hour ≤ duration then
    [duration / hour, duration % hour / minute, duration % minute / timeScale]
  else if minute ≤ duration then [duration / minute, duration % minute / timeScale]
  else [duration / timeScale]

def shownFraction (precision : Int64) (duration : Nat) : Text :=
  (Output.mk [] (duration % timeScale) (timeScale ≤ duration)).fraction precision

theorem mod_day_hour (duration : Nat) : duration % day % hour = duration % hour :=
  Nat.mod_mod_of_dvd _ ⟨24, rfl⟩

theorem mod_day_minute (duration : Nat) : duration % day % minute = duration % minute :=
  Nat.mod_mod_of_dvd _ ⟨1440, rfl⟩

theorem mod_hour_minute (duration : Nat) : duration % hour % minute = duration % minute :=
  Nat.mod_mod_of_dvd _ ⟨60, rfl⟩

theorem mod_minute_second (duration : Nat) : duration % minute % timeScale = duration % timeScale :=
  Nat.mod_mod_of_dvd _ ⟨60, rfl⟩

theorem form_eq (precision : Int64) (duration : Nat) : form precision duration =
    List.intercalate [':'] ((shownFields duration).map (toDigits 10)) ++
      '.' :: shownFraction precision duration := by
  unfold form shownFields
  by_cases days : day ≤ duration
  · have whole : timeScale ≤ duration := Nat.le_trans (by decide) days
    by_cases hours : hour ≤ duration % day
    · simp [Output.days, Output.hours, Output.minutes, Output.seconds, Output.fieldIf, Output.field,
        days, hours, whole, shownFraction, Output.fraction, mod_day_hour, mod_hour_minute,
        mod_minute_second]
    · simp [Output.days, Output.hours, Output.minutes, Output.seconds, Output.fieldIf, Output.field,
        days, hours, whole, shownFraction, Output.fraction, mod_day_minute, mod_minute_second]
  · by_cases hours : hour ≤ duration
    · have whole : timeScale ≤ duration := Nat.le_trans (by decide) hours
      simp [Output.days, Output.hours, Output.minutes, Output.seconds, Output.fieldIf, Output.field,
        days, hours, whole, shownFraction, Output.fraction, mod_hour_minute, mod_minute_second]
    · by_cases minutes : minute ≤ duration
      · have whole : timeScale ≤ duration := Nat.le_trans (by decide) minutes
        simp [Output.days, Output.hours, Output.minutes, Output.seconds, Output.fieldIf,
          Output.field, days, hours, minutes, whole, shownFraction, Output.fraction,
          mod_minute_second]
      · by_cases whole : timeScale ≤ duration
        · simp [Output.days, Output.hours, Output.minutes, Output.seconds, Output.fieldIf,
            Output.field, days, hours, minutes, whole, shownFraction, Output.fraction]
        · have none : duration / timeScale = 0 := Nat.div_eq_of_lt (Nat.lt_of_not_le whole)
          have kept : duration % timeScale = duration := Nat.mod_eq_of_lt (Nat.lt_of_not_le whole)
          simp [Output.days, Output.hours, Output.minutes, Output.seconds, Output.fieldIf,
            days, hours, minutes, whole, none, kept, shownFraction, Output.fraction]

theorem isDigit_of_mem_fraction {char : Char} (member : char ∈ shownFraction precision duration) :
    char.isDigit = true := by
  unfold shownFraction Output.fraction at member
  dsimp only at member
  split at member
  · obtain rfl := List.mem_singleton.mp member
    decide
  · split at member
    · exact DecimalText.isDigit_of_mem member
    · split at member
      · exact DecimalText.isDigit_of_mem member
      · exact DecimalText.isDigit_of_mem (List.mem_of_mem_take member)

theorem not_mem_digits {char : Char} (other : char.isDigit = false) (number : Nat) :
    char ∉ toDigits 10 number := by
  intro member
  rw [DecimalText.isDigit_of_mem member] at other
  cases other

theorem not_mem_intercalate {char separator : Char} (other : char ≠ separator)
    {texts : List Text} (none : ∀ text ∈ texts, char ∉ text) : char ∉ List.intercalate [separator] texts := by
  induction texts with
  | nil => simp
  | cons text rest ih =>
    have own := none text List.mem_cons_self
    have later := ih fun text member => none text (List.mem_cons_of_mem _ member)
    cases rest with
    | nil => rwa [List.intercalate_singleton]
    | cons next more =>
      rw [List.intercalate_cons_cons]
      simp [own, other, later]

theorem mapM_number? (fields : List Nat) :
    (fields.map (toDigits 10)).mapM DecimalText.number? = some fields := by
  induction fields with
  | nil => rfl
  | cons field rest ih => simp [List.mapM_cons, DecimalText.number?_toDigits, ih]

theorem read_fields {fields : List Nat} {fraction : Text} (some : fields ≠ [])
    (digits : ∀ char ∈ fraction, char.isDigit = true) :
    read (List.intercalate [':'] (fields.map (toDigits 10)) ++ '.' :: fraction) =
      (wholeSeconds fields).map fun seconds =>
        ⟨seconds * 10 ^ fraction.length + DecimalText.value fraction, fraction.length⟩ := by
  have noPoint : '.' ∉ List.intercalate [':'] (fields.map (toDigits 10)) := by
    refine not_mem_intercalate (by decide) fun text member => ?_
    obtain ⟨field, -, rfl⟩ := List.mem_map.mp member
    exact not_mem_digits (by decide) field
  have last : fraction.splitOn '.' = [fraction] :=
    List.splitOn_eq_singleton fun member => absurd (digits _ member) (by decide)
  have split : (List.intercalate [':'] (fields.map (toDigits 10))).splitOn ':' =
      fields.map (toDigits 10) := by
    refine List.splitOn_intercalate ':' (fun text member => ?_) (by simpa using some)
    obtain ⟨field, -, rfl⟩ := List.mem_map.mp member
    exact not_mem_digits (by decide) field
  rw [read, List.splitOn_append_cons_self_of_not_mem noPoint, last]
  dsimp only
  rw [split, mapM_number?, Option.bind_eq_bind, Option.bind_some]
  simp only [List.all_eq_true.mpr digits, if_true]
  cases wholeSeconds fields <;> rfl

def readSeconds (duration : Nat) : Nat :=
  if duration < day ∨ hour ≤ duration % day then duration / timeScale
  else duration / day * 3600 + duration % day / timeScale

theorem wholeSeconds_shownFields (duration : Nat) :
    wholeSeconds (shownFields duration) = some (readSeconds duration) := by
  unfold shownFields readSeconds
  by_cases days : day ≤ duration
  · rw [if_pos days]
    by_cases hours : hour ≤ duration % day
    · rw [if_pos hours, if_pos (.inr hours), wholeSeconds]
      unfold day hour minute timeScale at *
      congr 1
      omega
    · have skipped : ¬ (duration < day ∨ hour ≤ duration % day) := by omega
      rw [if_neg hours, if_neg skipped, wholeSeconds]
      unfold day hour minute timeScale at *
      congr 1
      omega
  · have short : duration < day ∨ hour ≤ duration % day := .inl (Nat.lt_of_not_le days)
    rw [if_neg days, if_pos short]
    by_cases hours : hour ≤ duration
    · rw [if_pos hours, wholeSeconds]
      unfold hour minute timeScale
      congr 1
      omega
    · rw [if_neg hours]
      by_cases minutes : minute ≤ duration
      · rw [if_pos minutes, wholeSeconds]
        unfold minute timeScale
        congr 1
        omega
      · rw [if_neg minutes]
        rfl

theorem readSeconds_eq_iff : readSeconds duration = duration / timeScale ↔
    duration < day ∨ hour ≤ duration % day := by
  unfold readSeconds
  split
  · exact iff_of_true rfl ‹_›
  · refine iff_of_false ?_ ‹_›
    unfold day hour timeScale at *
    omega

theorem shownFields_ne_nil (duration : Nat) : shownFields duration ≠ [] := by
  intro empty
  have seconds := wholeSeconds_shownFields duration
  rw [empty] at seconds
  cases seconds

theorem read_form (precision : Int64) (duration : Nat) : read (form precision duration) =
      some ⟨readSeconds duration * 10 ^ (shownFraction precision duration).length +
        DecimalText.value (shownFraction precision duration), (shownFraction precision duration).length⟩ := by
  rw [form_eq, read_fields (shownFields_ne_nil duration) fun _ => isDigit_of_mem_fraction,
    wholeSeconds_shownFields, Option.map_some]

theorem truncated_units (digits duration : Nat) : duration * 10 ^ digits / timeScale =
    duration / timeScale * 10 ^ digits + duration % timeScale * 10 ^ digits / timeScale := by
  have whole : duration * 10 ^ digits =
      timeScale * (duration / timeScale * 10 ^ digits) + duration % timeScale * 10 ^ digits := by
    rw [← Nat.mul_assoc, ← Nat.add_mul, Nat.div_add_mod]
  rw [whole, Nat.mul_add_div (by decide)]

theorem fraction_lt (digits duration : Nat) :
    duration % timeScale * 10 ^ digits / timeScale < 10 ^ digits := by
  have rest : duration % timeScale < timeScale := mod_lt _ (by decide)
  refine Nat.div_lt_of_lt_mul ?_
  exact Nat.mul_lt_mul_of_pos_right rest (Nat.pow_pos (by decide))

theorem parts_eq_iff {first second part other unit : Nat} (partBound : part < unit)
    (otherBound : other < unit) :
    first * unit + part = second * unit + other ↔ first = second ∧ part = other := by
  constructor
  · intro same
    rcases Nat.lt_trichotomy first second with less | rfl | greater
    · have step := Nat.mul_le_mul_right unit (Nat.succ_le_of_lt less)
      rw [Nat.succ_mul] at step
      omega
    · exact ⟨rfl, Nat.add_left_cancel same⟩
    · have step := Nat.mul_le_mul_right unit (Nat.succ_le_of_lt greater)
      rw [Nat.succ_mul] at step
      omega
  · rintro ⟨rfl, rfl⟩
    rfl

def shownDigits (precision : Int64) (duration : Nat) : Nat :=
  let digits := (Nat.toDigits 10 (duration % timeScale)).length
  if duration < 1000000 then digits else min digits precision.toUInt64.toNat

theorem shownFraction_eq (part : duration % timeScale ≠ 0) : shownFraction precision duration =
    (toDigits 10 (duration % timeScale)).take (shownDigits precision duration) := by
  unfold shownFraction Output.fraction shownDigits
  dsimp only
  rw [if_neg part]
  by_cases raw : duration < 1000000
  · have small : (!decide (timeScale ≤ duration) && decide (duration % timeScale < 1000000)) = true := by
      unfold timeScale
      simp only [Bool.and_eq_true, Bool.not_eq_true', decide_eq_false_iff_not, decide_eq_true_eq]
      omega
    rw [if_pos small, if_pos raw, List.take_length]
  · have large : ¬ (!decide (timeScale ≤ duration) && decide (duration % timeScale < 1000000)) = true := by
      unfold timeScale
      simp only [Bool.and_eq_true, Bool.not_eq_true', decide_eq_false_iff_not, decide_eq_true_eq]
      omega
    rw [if_neg large, if_neg raw]
    split
    · rw [Nat.min_eq_left (by omega), List.take_length]
    · rw [Nat.min_eq_right (by omega)]

theorem shownDigits_le : shownDigits precision duration ≤ (toDigits 10 (duration % timeScale)).length := by
  unfold shownDigits
  dsimp only
  split
  · exact Nat.le_refl _
  · exact Nat.min_le_left _ _

theorem precision_eq_zero_iff : precision.toUInt64.toNat = 0 ↔ precision = 0 := by
  constructor
  · intro zero
    have same : precision.toUInt64 = (0 : Int64).toUInt64 := UInt64.toNat_inj.mp zero
    simpa using congrArg UInt64.toInt64 same
  · rintro rfl
    rfl

theorem shownDigits_eq_zero_iff : shownDigits precision duration = 0 ↔ precision = 0 ∧ 1000000 ≤ duration := by
  have some := @Nat.length_toDigits_pos 10 (duration % timeScale)
  rw [← precision_eq_zero_iff]
  unfold shownDigits
  dsimp only
  split <;> omega

theorem fraction_faithful_iff (precision : Int64) (duration : Nat) :
    DecimalText.value (shownFraction precision duration) =
      duration % timeScale * 10 ^ (shownFraction precision duration).length / timeScale ↔
    (duration % timeScale = 0 ∨ 100000000 ≤ duration % timeScale ∨ precision = 0 ∧ 1000000 ≤ duration) := by
  have fits : duration % timeScale < 10 ^ 9 := mod_lt _ (by decide)
  by_cases part : duration % timeScale = 0
  · have zero : shownFraction precision duration = ['0'] := by
      rw [shownFraction, Output.fraction, if_pos part]
    rw [zero, part]
    exact iff_of_true rfl (.inl rfl)
  · have length : (shownFraction precision duration).length = shownDigits precision duration := by
      rw [shownFraction_eq part, List.length_take, Nat.min_eq_left shownDigits_le]
    rw [length, shownFraction_eq part, DecimalText.value_take_toDigits]
    by_cases hidden : shownDigits precision duration = 0
    · have below : duration % timeScale < 10 ^ (toDigits 10 (duration % timeScale)).length :=
        (Nat.length_toDigits_le_iff (by decide) Nat.length_toDigits_pos).mp (Nat.le_refl _)
      rw [hidden, Nat.sub_zero, Nat.div_eq_of_lt below, Nat.pow_zero, Nat.mul_one]
      have none : duration % timeScale / timeScale = 0 := Nat.div_eq_of_lt fits
      rw [none]
      exact iff_of_true rfl (.inr (.inr (shownDigits_eq_zero_iff.mp hidden)))
    · rw [← or_assoc, ← shownDigits_eq_zero_iff, or_iff_left hidden, or_iff_right part]
      refine (DecimalText.leading_eq_iff (Nat.pos_of_ne_zero part) (Nat.pos_of_ne_zero hidden)
        shownDigits_le fits).trans ?_
      have most := (@Nat.length_toDigits_le_iff 10 _ 9 (by decide) (by decide)).mpr fits
      have less := @Nat.length_toDigits_le_iff 10 (duration % timeScale) 8 (by decide) (by decide)
      omega

theorem faithful_iff (precision : Int64) (duration : Nat) :
    Faithful precision duration ↔ Legible precision duration := by
  have value := DecimalText.value_lt fun char => @isDigit_of_mem_fraction precision duration char
  have expected := fraction_lt (shownFraction precision duration).length duration
  rw [Legible, ← readSeconds_eq_iff, ← fraction_faithful_iff, ← parts_eq_iff value expected,
    ← truncated_units, Faithful, read_form]
  constructor
  · rintro ⟨digits, same⟩
    simp only [truncated, Option.some.injEq, Decimal.mk.injEq] at same
    rw [← same.2] at same
    exact same.1
  · intro same
    exact ⟨(shownFraction precision duration).length, by rw [same, truncated]⟩

def Decimal.nanoseconds (decimal : Decimal) : Nat := decimal.units * 10 ^ (9 - decimal.digits)

theorem Decimal.le_of_nanoseconds {first second : Decimal} (firstBound : first.digits ≤ 9)
    (secondBound : second.digits ≤ 9) (less : first.nanoseconds ≤ second.nanoseconds) : first ≤ second := by
  have firstScale : 10 ^ (9 - first.digits) * 10 ^ first.digits = 10 ^ 9 := by
    rw [← Nat.pow_add, Nat.sub_add_cancel firstBound]
  have secondScale : 10 ^ (9 - second.digits) * 10 ^ second.digits = 10 ^ 9 := by
    rw [← Nat.pow_add, Nat.sub_add_cancel secondBound]
  have scaled := Nat.mul_le_mul_right (10 ^ first.digits * 10 ^ second.digits) less
  refine Nat.le_of_mul_le_mul_right ?_ (show 0 < 10 ^ 9 by decide)
  calc first.units * 10 ^ second.digits * 10 ^ 9
      = first.nanoseconds * (10 ^ first.digits * 10 ^ second.digits) := by
        rw [nanoseconds, ← firstScale]
        ac_rfl
    _ ≤ second.nanoseconds * (10 ^ first.digits * 10 ^ second.digits) := scaled
    _ = second.units * 10 ^ first.digits * 10 ^ 9 := by
        rw [nanoseconds, ← secondScale]
        ac_rfl

theorem truncated_nanoseconds {digits : Nat} (bound : digits ≤ 9) (duration : Nat) :
    (truncated digits duration).nanoseconds = duration / 10 ^ (9 - digits) * 10 ^ (9 - digits) := by
  have scale : timeScale = 10 ^ (9 - digits) * 10 ^ digits := by
    rw [← Nat.pow_add, Nat.sub_add_cancel bound]
    rfl
  rw [Decimal.nanoseconds, truncated, scale, Nat.mul_div_mul_right _ _ (Nat.pow_pos (by decide))]

theorem whole_units {exponent : Nat} (bound : exponent ≤ 9) (whole : duration % timeScale = 0) :
    duration / 10 ^ exponent * 10 ^ exponent = duration := by
  have divides : 10 ^ exponent ∣ 10 ^ 9 := Nat.pow_dvd_pow 10 bound
  exact Nat.div_mul_cancel (Nat.dvd_trans divides (Nat.dvd_of_mod_eq_zero whole))

theorem read_legible (legible : Legible precision duration) :
    ∃ decimal, read (form precision duration) = some decimal ∧ decimal.digits ≤ 9 ∧
      decimal.nanoseconds = duration / displayUnit precision * displayUnit precision := by
  obtain ⟨digits, reads⟩ := (faithful_iff precision duration).mpr legible
  have length : (shownFraction precision duration).length = digits := by
    rw [read_form, truncated] at reads
    exact (Decimal.mk.inj (Option.some.inj reads)).2
  have fits : duration % timeScale < 10 ^ 9 := mod_lt _ (by decide)
  by_cases whole : duration % timeScale = 0
  · have one : digits = 1 := by
      rw [← length, shownFraction, Output.fraction, if_pos whole]
      rfl
    have bound : digits ≤ 9 := by omega
    refine ⟨_, reads, bound, ?_⟩
    rw [truncated_nanoseconds bound, whole_units (Nat.sub_le 9 digits) whole]
    exact (whole_units (Nat.sub_le 9 _) whole).symm
  · have count : digits = shownDigits precision duration := by
      rw [← length, shownFraction_eq whole, List.length_take, Nat.min_eq_left shownDigits_le]
    have most := (@Nat.length_toDigits_le_iff 10 _ 9 (by decide) (by decide)).mpr fits
    have least := @Nat.length_toDigits_le_iff 10 (duration % timeScale) 8 (by decide) (by decide)
    have exponent : 9 - digits = 9 - precision.toUInt64.toNat ∧ digits ≤ 9 := by
      rcases legible.2 with none | large | ⟨hidden, size⟩
      · exact absurd none whole
      · have big : ¬ duration < 1000000 := by
          have kept := Nat.mod_le duration timeScale
          omega
        rw [count, shownDigits, if_neg big]
        omega
      · have zero := shownDigits_eq_zero_iff.mpr ⟨hidden, size⟩
        have none := precision_eq_zero_iff.mpr hidden
        omega
    refine ⟨_, reads, exponent.2, ?_⟩
    rw [truncated_nanoseconds exponent.2, exponent.1, displayUnit]

theorem form_faithful_iff (precision : Int64) :
    (∀ duration, Faithful precision duration ↔ Legible precision duration) ∧
      ∀ shorter longer, Legible precision shorter → Legible precision longer →
        (shorter ≤ longer → ∃ first second, read (form precision shorter) = some first ∧
          read (form precision longer) = some second ∧ first ≤ second) ∧
        (shorter + displayUnit precision ≤ longer → form precision shorter ≠ form precision longer) := by
  refine ⟨faithful_iff precision, fun shorter longer shorterLegible longerLegible => ?_⟩
  obtain ⟨first, readsFirst, firstDigits, firstValue⟩ := read_legible shorterLegible
  obtain ⟨second, readsSecond, secondDigits, secondValue⟩ := read_legible longerLegible
  have positive : 0 < displayUnit precision := Nat.pow_pos (by decide)
  constructor
  · intro ordered
    refine ⟨first, second, readsFirst, readsSecond, ?_⟩
    apply Decimal.le_of_nanoseconds firstDigits secondDigits
    rw [firstValue, secondValue]
    exact Nat.mul_le_mul_right _ (Nat.div_le_div_right ordered)
  · intro apart same
    rw [same, readsSecond, Option.some.injEq] at readsFirst
    rw [readsFirst] at secondValue
    have units := Nat.eq_of_mul_eq_mul_right positive (firstValue.symm.trans secondValue)
    have step := @Nat.div_le_div_right _ _ (displayUnit precision) apart
    rw [Nat.add_div_right _ positive] at step
    omega

theorem form_faithful_half_second : (∃ first second,
      read (form 6 1000000000) = some first ∧ read (form 6 1500000000) = some second ∧
        first ≤ second) ∧ form 6 1000000000 ≠ form 6 1500000000 := by
  have second : Legible 6 1000000000 := by
    unfold Legible
    decide
  have half : Legible 6 1500000000 := by
    unfold Legible
    decide
  have both := (form_faithful_iff 6).2 1000000000 1500000000 second half
  exact ⟨both.1 (by decide), both.2 (by decide)⟩

theorem hours_left_out : ¬ ∀ (precision : Int64) (duration : Nat), Faithful precision duration := by
  intro always
  obtain ⟨digits, reads⟩ := always 6 86700000000000
  have skipped : read (form 6 86700000000000) = some ⟨39000, 1⟩ := by
    decide +kernel
  rw [skipped, truncated, Option.some.injEq, Decimal.mk.injEq] at reads
  obtain ⟨units, rfl⟩ := reads
  revert units
  decide

end DurationText

end OpenSpeedShop
