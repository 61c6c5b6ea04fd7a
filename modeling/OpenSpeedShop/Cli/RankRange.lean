import OpenSpeedShop.Library.DecimalText
import OpenSpeedShop.Library.Fallible
import OpenSpeedShop.Library.IntRanges
import Mathlib.Algebra.Ring.Int.Defs
import Mathlib.Data.List.Chain

/-! The text for the ranks of an experiment, with ranges for those that follow each other. -/

namespace OpenSpeedShop.RankRange

open DecimalText (number?)
open IntRanges (Within)
open List (cons_append append_assoc mem_singleton mem_append_left nil_append isChain_append
  isChain_singleton pairwise_append mem_append length_cons splitOnP_append_cons append_nil
  singleton_append)

/-- `sprintf(..., "%d", rank)`, which takes an `int64_t` for an `int`. -/
def rankText (rank : Int) : List Char :=
  let low := rank.bmod (2 ^ 32)
  if low < 0 then '-' :: Nat.toDigits 10 low.natAbs else Nat.toDigits 10 low.natAbs

structure Scan where
  infoString : List Char
  previousRank : Int
  maxRangeRank : Int
  minRangeRank : Int
  firstTime : Bool

def scanRank (size rankCount : Nat) (scan : Scan) (rank : Int) : Scan :=
  if size = 1 then { scan with infoString := scan.infoString ++ rankText rank }
  else if scan.firstTime then ⟨scan.infoString, rank, rank, rank, false⟩
  else if rank > scan.previousRank then
    if rank = scan.previousRank + 1 ∧ rankCount ≠ size then
      { scan with maxRangeRank := rank, previousRank := rank }
    else if scan.maxRangeRank ≠ scan.minRangeRank ∧ rankCount ≠ size then
      { scan with
        infoString := scan.infoString ++ rankText scan.maxRangeRank
        previousRank := rank }
    else
      let maxRangeRank := if rankCount = size then rank else scan.maxRangeRank
      let minRangeRank := scan.minRangeRank
      let shown :=
        if minRangeRank ≠ maxRangeRank then
          if minRangeRank + 1 = maxRangeRank ∨ scan.previousRank + 1 = maxRangeRank then
            rankText minRangeRank ++ '-' :: rankText maxRangeRank
          else if rankCount = size then rankText minRangeRank ++ rankText maxRangeRank
          else ' ' :: rankText minRangeRank ++ [' ']
        else ' ' :: rankText minRangeRank ++ [' ']
      ⟨scan.infoString ++ shown, rank, rank, rank, false⟩
  else { scan with previousRank := rank }

def scanRanks (size : Nat) : (rankCount : Nat) → Scan → List Int → Scan
  | _, scan, [] => scan
  | rankCount, scan, rank :: rest =>
    scanRanks size (rankCount + 1) (scanRank size (rankCount + 1) scan rank) rest

def getRankRange (listOfRanks : List Int) : List Char :=
  (scanRanks listOfRanks.length 0 ⟨[], -1, -1, -1, true⟩ listOfRanks).infoString

def words (text : List Char) : List (List Char) := (text.splitOnP (· = ' ')).filter (· ≠ [])

def readWord (word : List Char) : Option (Int × Int) :=
  match word.splitOnP (· = '-') with
  | [digits] => (number? digits).map fun (rank : Nat) => ((rank : Int), (rank : Int))
  | [first, last] => (number? first).bind fun (low : Nat) => (number? last).map fun (high : Nat) =>
    ((low : Int), (high : Int))
  | _ => none

def readRanges (text : List Char) : Option (List (Int × Int)) := (words text).mapM readWord

def Denotes (text : List Char) (ranks : List Int) : Prop :=
  ∃ ranges, readRanges text = some ranges ∧ ∀ rank, Within ranges rank ↔ rank ∈ ranks

def Follows (first second : Int) : Prop := second = first + 1

instance (first second : Int) : Decidable (Follows first second) :=
  inferInstanceAs (Decidable (second = first + 1))

def GapsThenRun : List Int → Prop
  | first :: second :: rest =>
    if Follows first second then (second :: rest).IsChain Follows else GapsThenRun (second :: rest)
  | _ => False

theorem words_break (before after : List Char) :
    words (before ++ ' ' :: after) = words before ++ words after := by
  rw [words, splitOnP_append_cons before after (by simp), List.filter_append]
  rfl

variable {word : List Char}

theorem words_single (some : word ≠ []) (whole : ' ' ∉ word) : words word = [word] := by
  have one : word.splitOnP (· = ' ') = [word] :=
    List.splitOnP_eq_singleton fun char member => decide_eq_false fun same => whole (same ▸ member)
  rw [words, one, List.filter_cons_of_pos (by simpa using some), List.filter_nil]

variable {text : List Char}

theorem not_mem_of_isDigit {char : Char}
    (all : ∀ digit ∈ text, digit.isDigit = true) (other : char.isDigit = false) : char ∉ text := by
  intro member
  rw [all char member] at other
  exact absurd other (by decide)

theorem number?_eq_some {number : Nat} (read : number? text = some number) :
    (∀ digit ∈ text, digit.isDigit = true) ∧ number = DecimalText.value text := by
  rw [number?] at read
  split at read
  next digits => exact ⟨List.all_eq_true.mp digits.2, (Option.some.inj read).symm⟩
  next => cases read

theorem splitOnP_hyphen (clean : '-' ∉ text) : text.splitOnP (· = '-') = [text] :=
  List.splitOnP_eq_singleton fun char member => decide_eq_false fun same => clean (same ▸ member)

theorem readWord_number {number : Nat} (read : number? word = some number) :
    readWord word = some ((number : Int), (number : Int)) := by
  have clean := not_mem_of_isDigit (number?_eq_some read).1 (by decide : '-'.isDigit = false)
  rw [readWord, splitOnP_hyphen clean]
  simp only [read, Option.map_some]

theorem readWord_range {first last : List Char} {low high : Nat} (left : number? first = some low)
    (right : number? last = some high) :
    readWord (first ++ '-' :: last) = some ((low : Int), (high : Int)) := by
  have cleanFirst := not_mem_of_isDigit (number?_eq_some left).1 (by decide : '-'.isDigit = false)
  have cleanLast := not_mem_of_isDigit (number?_eq_some right).1 (by decide : '-'.isDigit = false)
  rw [readWord, splitOnP_append_cons _ _ (by simp), splitOnP_hyphen cleanFirst, splitOnP_hyphen cleanLast]
  simp only [singleton_append, left, right, Option.bind_some, Option.map_some]

theorem readWord_two_hyphens (first second third : List Char) :
    readWord (first ++ '-' :: (second ++ '-' :: third)) = none := by
  have parts : ∀ text : List Char, 0 < (text.splitOnP (· = '-')).length := fun text =>
    List.length_pos_iff.mpr (List.splitOnP_ne_nil _ text)
  have one := parts first
  have two := parts second
  have three := parts third
  rw [readWord, splitOnP_append_cons _ _ (by simp), splitOnP_append_cons _ _ (by simp)]
  split
  next digits same =>
    have lengths := congrArg List.length same
    simp only [List.length_append, length_cons, List.length_nil] at lengths
    omega
  next low high same =>
    have lengths := congrArg List.length same
    simp only [List.length_append, length_cons, List.length_nil] at lengths
    omega
  next => rfl

theorem readWord_hyphen {first last : List Char} {range : Int × Int}
    (read : readWord (first ++ '-' :: last) = some range) :
    ∃ low high : Nat, number? first = some low ∧ number? last = some high ∧
      range = ((low : Int), (high : Int)) := by
  by_cases hyphen : '-' ∈ first
  · obtain ⟨before, after, rfl⟩ := List.append_of_mem hyphen
    rw [append_assoc, cons_append, readWord_two_hyphens] at read
    cases read
  · by_cases later : '-' ∈ last
    · obtain ⟨before, after, rfl⟩ := List.append_of_mem later
      rw [readWord_two_hyphens] at read
      cases read
    · rw [readWord, splitOnP_append_cons _ _ (by simp), splitOnP_hyphen hyphen,
        splitOnP_hyphen later] at read
      obtain ⟨low, left, read⟩ := Option.bind_eq_some_iff.mp read
      obtain ⟨high, right, rfl⟩ := Option.map_eq_some_iff.mp read
      exact ⟨low, high, left, right, rfl⟩

variable {rank : Int}

theorem number?_rankText {number : Nat} (read : number? (rankText rank) = some number) :
    (number : Int) < 2 ^ 31 ∧ (0 ≤ rank → rank < 2 ^ 31 → (number : Int) = rank) := by
  rw [rankText] at read
  split at read
  next negative =>
    have digit := (number?_eq_some read).1 '-' List.mem_cons_self
    exact absurd digit (by decide)
  next positive =>
    rw [DecimalText.number?_toDigits] at read
    have value := Option.some.inj read
    have bound := @Int.bmod_lt rank (2 ^ 32) (by decide)
    refine ⟨by omega, fun nonneg small => ?_⟩
    have own : rank.bmod (2 ^ 32) = rank := Int.bmod_eq_of_le (by omega) (by omega)
    omega

theorem rankText_small (nonneg : 0 ≤ rank) (small : rank < 2 ^ 31) :
    rankText rank = Nat.toDigits 10 rank.natAbs := by
  have own : rank.bmod (2 ^ 32) = rank := Int.bmod_eq_of_le (by omega) (by omega)
  rw [rankText]
  simp only [own]
  rw [if_neg (by omega)]

theorem number?_rankText_small (nonneg : 0 ≤ rank) (small : rank < 2 ^ 31) :
    number? (rankText rank) = some rank.natAbs := by
  rw [rankText_small nonneg small, DecimalText.number?_toDigits]

theorem rankText_word (rank : Int) : rankText rank ≠ [] ∧ ' ' ∉ rankText rank := by
  have digits : ∀ number : Nat, ' ' ∉ Nat.toDigits 10 number := fun number =>
    not_mem_of_isDigit (fun _ => DecimalText.isDigit_of_mem) (by decide)
  rw [rankText]
  split
  · exact ⟨List.cons_ne_nil _ _, by simp [digits]⟩
  · exact ⟨Nat.toDigits_ne_nil, digits _⟩

/-! The scan: single ranks are printed on the way, and the first run stays open. -/

structure Parts where
  singles : List Int
  first : Int
  run : List Int
  others : List Char

def spaced (singles : List Int) : List Char :=
  singles.flatMap fun rank => ' ' :: (rankText rank ++ [' '])

structure Scanned (seen : List Int) (scan : Scan) (parts : Parts) : Prop where
  seen_eq : seen = parts.singles ++ parts.first :: parts.run
  apart : (parts.singles ++ [parts.first]).IsChain fun first second => ¬ Follows first second
  head : ∀ rank ∈ parts.run.head?, Follows parts.first rank
  info : scan.infoString = spaced parts.singles ++ parts.others
  clean : ' ' ∉ parts.others
  started : scan.firstTime = false
  least : scan.minRangeRank = parts.first
  previous : (parts.first :: parts.run).getLast? = some scan.previousRank
  grown : parts.run = [] ∨ parts.first < scan.previousRank
  ending : (parts.others = [] ∧ (parts.first :: parts.run).IsChain Follows ∧
      scan.maxRangeRank = scan.previousRank) ∨
    (¬ (parts.first :: parts.run).IsChain Follows ∧ parts.first < scan.maxRangeRank ∧
      ∃ rank ∈ parts.run, parts.first < rank ∧ ∃ rest, parts.others = rankText rank ++ rest)

section

variable {size rankCount : Nat} {seen : List Int} {scan : Scan} {parts : Parts} {rank : Int}

theorem scanned_first (rank : Int) : Scanned [rank] ⟨[], rank, rank, rank, false⟩ ⟨[], rank, [], []⟩ where
  seen_eq := rfl
  apart := isChain_singleton rank
  head := by simp
  info := rfl
  clean := List.not_mem_nil
  started := rfl
  least := rfl
  previous := rfl
  grown := .inl rfl
  ending := .inl ⟨rfl, isChain_singleton rank, rfl⟩

section

variable (scanned : Scanned seen scan parts)
include scanned

theorem Scanned.first_le : parts.first ≤ scan.previousRank := by
  rcases scanned.grown with none | grown
  · have last := scanned.previous
    rw [none, List.getLast?_singleton] at last
    exact Int.le_of_eq (Option.some.inj last)
  · exact Int.le_of_lt grown

theorem Scanned.first_not_followed (gap : rank ≠ scan.previousRank + 1) :
    ¬ (parts.first :: (parts.run ++ [rank])).IsChain Follows := by
  intro chain
  rw [← cons_append, isChain_append] at chain
  exact gap (chain.2.2 _ scanned.previous rank rfl)

theorem Scanned.ascending (above : scan.previousRank < rank) (infoString : List Char) (maxRangeRank : Int)
    (head : ∀ other ∈ (parts.run ++ [rank]).head?, Follows parts.first other)
    (others : List Char) (info : infoString = spaced parts.singles ++ others) (clean : ' ' ∉ others)
    (ending : (others = [] ∧ (parts.first :: (parts.run ++ [rank])).IsChain Follows ∧ maxRangeRank = rank) ∨
      (¬ (parts.first :: (parts.run ++ [rank])).IsChain Follows ∧ parts.first < maxRangeRank ∧
        ∃ other ∈ parts.run ++ [rank], parts.first < other ∧ ∃ rest, others = rankText other ++ rest)) :
    Scanned (seen ++ [rank])
      { scan with infoString := infoString, maxRangeRank := maxRangeRank, previousRank := rank }
      { parts with run := parts.run ++ [rank], others := others } where
  seen_eq := by rw [scanned.seen_eq, append_assoc, cons_append]
  apart := scanned.apart
  head := head
  info := info
  clean := clean
  started := scanned.started
  least := scanned.least
  previous := by rw [← cons_append, List.getLast?_concat]
  grown := .inr (Int.lt_of_le_of_lt scanned.first_le above)
  ending := ending

theorem Scanned.follow (next : rank = scan.previousRank + 1) :
    ∃ parts, Scanned (seen ++ [rank]) { scan with maxRangeRank := rank, previousRank := rank }
      parts := by
  have above : scan.previousRank < rank := by omega
  have low := scanned.first_le
  have head : ∀ other ∈ (parts.run ++ [rank]).head?, Follows parts.first other := by
    intro other member
    cases known : parts.run with
    | nil =>
      have last := scanned.previous
      rw [known, List.getLast?_singleton] at last
      rw [known, nil_append, List.head?_cons, Option.mem_some_iff] at member
      rw [Follows, ← member, next, Option.some.inj last]
    | cons second rest =>
      refine scanned.head other ?_
      rw [known, cons_append, List.head?_cons] at member
      rwa [known, List.head?_cons]
  refine ⟨_, scanned.ascending above scan.infoString rank head parts.others scanned.info scanned.clean ?_⟩
  rcases scanned.ending with ⟨none, chain, _⟩ | ⟨broken, _, other, member, less, rest, shown⟩
  · refine .inl ⟨none, ?_, rfl⟩
    rw [← cons_append, isChain_append]
    refine ⟨chain, isChain_singleton rank, fun last member other found => ?_⟩
    rw [scanned.previous, Option.mem_some_iff] at member
    rw [List.head?_singleton, Option.mem_some_iff] at found
    rw [← member, ← found, Follows, next]
  · refine .inr ⟨fun chain => broken ?_, by omega, other, mem_append_left _ member, less, rest,
      shown⟩
    rw [← cons_append, isChain_append] at chain
    exact chain.1

theorem Scanned.gap_run (above : scan.previousRank < rank)
    (gap : rank ≠ scan.previousRank + 1) (several : scan.maxRangeRank ≠ scan.minRangeRank) :
    ∃ parts, Scanned (seen ++ [rank]) { scan with
        infoString := scan.infoString ++ rankText scan.maxRangeRank
        previousRank := rank } parts := by
  have low := scanned.first_le
  have broken := scanned.first_not_followed gap
  have info : scan.infoString ++ rankText scan.maxRangeRank =
      spaced parts.singles ++ (parts.others ++ rankText scan.maxRangeRank) := by
    rw [scanned.info, append_assoc]
  rw [scanned.least] at several
  have some : parts.run ≠ [] := by
    rcases scanned.ending with ⟨_, _, max⟩ | ⟨_, _, other, member, _⟩
    · rcases scanned.grown with none | grown
      · have last := scanned.previous
        rw [none, List.getLast?_singleton] at last
        exact absurd (max.trans (Option.some.inj last).symm) several
      · intro none
        have last := scanned.previous
        rw [none, List.getLast?_singleton] at last
        exact absurd (Option.some.inj last) (Int.ne_of_lt grown)
    · exact List.ne_nil_of_mem member
  have head : ∀ other ∈ (parts.run ++ [rank]).head?, Follows parts.first other := by
    rw [List.head?_append_of_ne_nil _ some]
    exact scanned.head
  have clean : ' ' ∉ parts.others ++ rankText scan.maxRangeRank :=
    List.not_mem_append scanned.clean (rankText_word _).2
  refine ⟨_, scanned.ascending above _ scan.maxRangeRank head _ info clean (.inr ⟨broken, ?_⟩)⟩
  rcases scanned.ending with ⟨none, _, max⟩ | ⟨_, less, other, member, above, rest, shown⟩
  · refine ⟨by omega, scan.maxRangeRank, mem_append_left _ ?_, by omega, [], ?_⟩
    · rcases List.mem_cons.mp (List.mem_of_getLast? scanned.previous) with same | inRun
      · exact absurd (max.trans same) several
      · rwa [max]
    · rw [none, nil_append, append_nil]
  · refine ⟨less, other, mem_append_left _ member, above, rest ++ rankText scan.maxRangeRank, ?_⟩
    rw [shown, append_assoc]

theorem Scanned.gap_single
    (gap : rank ≠ scan.previousRank + 1) (one : scan.maxRangeRank = scan.minRangeRank) :
    ∃ parts, Scanned (seen ++ [rank])
      ⟨scan.infoString ++ (' ' :: rankText scan.minRangeRank ++ [' ']), rank, rank, rank, false⟩ parts := by
  rw [scanned.least] at one ⊢
  obtain ⟨none, chain, max⟩ | ⟨_, less, _⟩ := scanned.ending
  · have single : parts.run = [] := by
      rcases scanned.grown with none | grown
      · exact none
      · omega
    have last : parts.first = scan.previousRank := one.symm.trans max
    refine ⟨⟨parts.singles ++ [parts.first], rank, [], []⟩, ?_, ?_, by simp, ?_, List.not_mem_nil,
      rfl, rfl, rfl, .inl rfl, .inl ⟨rfl, isChain_singleton rank, rfl⟩⟩
    · rw [scanned.seen_eq, single]
    · rw [isChain_append]
      refine ⟨scanned.apart, isChain_singleton rank, fun other member next found => ?_⟩
      rw [List.getLast?_concat, Option.mem_some_iff] at member
      rw [List.head?_singleton, Option.mem_some_iff] at found
      rw [← member, ← found, Follows, last]
      exact gap
    · rw [scanned.info, none, append_nil]
      simp [spaced]
  · omega

theorem Scanned.step (several : size ≠ 1) (early : rankCount ≠ size) (above : scan.previousRank < rank) :
    ∃ parts, Scanned (seen ++ [rank]) (scanRank size rankCount scan rank) parts := by
  have started : ¬ scan.firstTime = true := by simp [scanned.started]
  rw [scanRank, if_neg several, if_neg started, if_pos above]
  by_cases next : rank = scan.previousRank + 1
  · rw [if_pos ⟨next, early⟩]
    exact scanned.follow next
  · rw [if_neg fun both => next both.1]
    by_cases run : scan.maxRangeRank = scan.minRangeRank
    · rw [if_neg fun both => both.1 run]
      simp only [if_neg early, run, ne_eq, not_true_eq_false, if_false]
      exact scanned.gap_single next run
    · rw [if_pos ⟨run, early⟩]
      exact scanned.gap_run above next run

end

def Parts.lastWord (parts : Parts) (previousRank rank : Int) : List Char :=
  parts.others ++ (rankText parts.first ++
    if rank = previousRank + 1 then '-' :: rankText rank else rankText rank)

theorem Scanned.last (scanned : Scanned seen scan parts) (several : size ≠ 1)
    (above : scan.previousRank < rank) : (scanRank size size scan rank).infoString =
      spaced parts.singles ++ parts.lastWord scan.previousRank rank := by
  have started : ¬ scan.firstTime = true := by simp [scanned.started]
  have low := scanned.first_le
  have apart : parts.first ≠ rank := by omega
  rw [scanRank, if_neg several, if_neg started, if_pos above, if_neg fun both => both.2 rfl,
    if_neg fun both => both.2 rfl, Parts.lastWord]
  simp only [if_true, scanned.least, scanned.info, ne_eq, apart, not_false_eq_true]
  by_cases next : rank = scan.previousRank + 1
  · rw [if_pos (Or.inr next.symm), if_pos next, append_assoc]
  · have neither : ¬ (parts.first + 1 = rank ∨ scan.previousRank + 1 = rank) := by omega
    rw [if_neg neither, if_neg next, append_assoc]

theorem scanRanks_eq (several : size ≠ 1) (last : Int) (middle : List Int) :
    ∀ {rankCount : Nat} {seen : List Int} {scan : Scan} {parts : Parts},
      Scanned seen scan parts → rankCount + middle.length + 1 = size →
      (seen ++ (middle ++ [last])).Pairwise (· < ·) →
      ∃ before parts, Scanned (seen ++ middle) before parts ∧ before.previousRank < last ∧
        (scanRanks size rankCount scan (middle ++ [last])).infoString =
          spaced parts.singles ++ parts.lastWord before.previousRank last := by
  induction middle with
  | nil =>
    intro rankCount seen scan parts scanned count ascending
    have member := List.mem_of_getLast? scanned.previous
    have above : scan.previousRank < last := by
      rw [scanned.seen_eq, nil_append, pairwise_append] at ascending
      exact ascending.2.2 _ (List.mem_append_right _ member) last (mem_singleton.mpr rfl)
    have whole : rankCount + 1 = size := by simpa using count
    refine ⟨scan, parts, by rwa [append_nil], above, ?_⟩
    rw [nil_append, scanRanks, scanRanks, whole]
    exact scanned.last several above
  | cons rank rest ih =>
    intro rankCount seen scan parts scanned count ascending
    have member := List.mem_of_getLast? scanned.previous
    have above : scan.previousRank < rank := by
      rw [scanned.seen_eq, pairwise_append] at ascending
      exact ascending.2.2 _ (List.mem_append_right _ member) rank List.mem_cons_self
    rw [length_cons] at count
    obtain ⟨next, stepped⟩ := scanned.step several (by omega : rankCount + 1 ≠ size) above
    obtain ⟨before, final, reached, later, shown⟩ := @ih (rankCount + 1) _ _ _ stepped (by omega) (by
      rwa [append_assoc, singleton_append, ← cons_append])
    rw [append_assoc, singleton_append] at reached
    exact ⟨before, final, reached, later, shown⟩

end

theorem words_spaced (singles : List Int) (some : word ≠ []) (whole : ' ' ∉ word) :
    words (spaced singles ++ word) = singles.map rankText ++ [word] := by
  induction singles with
  | nil => exact words_single some whole
  | cons rank rest ih =>
    obtain ⟨nonempty, clean⟩ := rankText_word rank
    have text : spaced (rank :: rest) ++ word =
        [] ++ ' ' :: (rankText rank ++ ' ' :: (spaced rest ++ word)) := by
      simp [spaced]
    rw [text, words_break, words_break, ih, words_single nonempty clean]
    rfl

theorem readWord_rankText {range : Int × Int} (read : readWord (rankText rank) = some range) :
    range.1 = range.2 ∧ range.2 < 2 ^ 31 ∧ (0 ≤ rank → rank < 2 ^ 31 → range.2 = rank) := by
  have digits : ∃ number : Nat, number? (rankText rank) = some number := by
    rw [rankText] at read ⊢
    split at read
    · obtain ⟨low, _, none, _⟩ := @readWord_hyphen [] _ _ read
      exact absurd none (by simp [number?])
    · next positive =>
        rw [if_neg positive]
        exact ⟨_, DecimalText.number?_toDigits _⟩
  obtain ⟨number, known⟩ := digits
  rw [readWord_number known] at read
  obtain rfl := Option.some.inj read
  obtain ⟨bound, own⟩ := number?_rankText known
  exact ⟨rfl, bound, own⟩

theorem mem_run {last : Int} (run : List Int) : ∀ {first : Int},
    (first :: run).IsChain Follows → (first :: run).getLast? = some last →
      first ≤ last ∧ ∀ rank, rank ∈ first :: run ↔ first ≤ rank ∧ rank ≤ last := by
  induction run with
  | nil =>
    intro first _ ends
    rw [List.getLast?_singleton, Option.some.injEq] at ends
    refine ⟨Int.le_of_eq ends, fun rank => ?_⟩
    rw [mem_singleton]
    omega
  | cons second rest ih =>
    intro first chain ends
    obtain ⟨follows, chain⟩ := List.isChain_cons_cons.mp chain
    rw [List.getLast?_cons_cons] at ends
    obtain ⟨bound, within⟩ := ih chain ends
    rw [Follows] at follows
    refine ⟨by omega, fun rank => ?_⟩
    rw [List.mem_cons, within]
    omega

theorem gapsThenRun_apart {singles rest : List Int} {first : Int}
    (apart : (singles ++ [first]).IsChain fun first second => ¬ Follows first second) :
    GapsThenRun (singles ++ first :: rest) ↔ GapsThenRun (first :: rest) := by
  induction singles with
  | nil => rfl
  | cons rank others ih =>
    cases others with
    | nil =>
      obtain ⟨gap, _⟩ := List.isChain_cons_cons.mp apart
      rw [singleton_append, GapsThenRun, if_neg gap]
    | cons second others =>
      obtain ⟨gap, later⟩ := List.isChain_cons_cons.mp apart
      rw [cons_append, cons_append, GapsThenRun, if_neg gap]
      exact ih later

section

variable {seen : List Int} {scan : Scan} {parts : Parts} {last : Int}

theorem Scanned.gapsThenRun_iff (scanned : Scanned seen scan parts) : GapsThenRun (seen ++ [last]) ↔
      (parts.first :: parts.run).IsChain Follows ∧ Follows scan.previousRank last := by
  rw [scanned.seen_eq, append_assoc, cons_append, gapsThenRun_apart scanned.apart]
  have previous := scanned.previous
  have head := scanned.head
  cases known : parts.run with
  | nil =>
    rw [known, List.getLast?_singleton, Option.some.injEq] at previous
    rw [nil_append, GapsThenRun, previous]
    by_cases follows : Follows scan.previousRank last
    · simp [follows]
    · simp [follows, GapsThenRun]
  | cons second rest =>
    rw [known] at previous head
    rw [cons_append, GapsThenRun, if_pos (head second rfl), ← cons_append,
      isChain_append, List.isChain_cons_cons, and_iff_right (head second rfl)]
    rw [List.getLast?_cons_cons] at previous
    simp [previous]

theorem Scanned.lastWord_word (scanned : Scanned seen scan parts) :
    parts.lastWord scan.previousRank last ≠ [] ∧ ' ' ∉ parts.lastWord scan.previousRank last := by
  have first := rankText_word parts.first
  have ends := rankText_word last
  rw [Parts.lastWord]
  split
  · simp [scanned.clean, first, ends]
  · simp [scanned.clean, first, ends]

theorem Scanned.denotes (scanned : Scanned seen scan parts)
    (nonneg : ∀ rank ∈ seen ++ [last], 0 ≤ rank) (small : ∀ rank ∈ seen ++ [last], rank < 2 ^ 31)
    (runs : GapsThenRun (seen ++ [last])) :
    Denotes (spaced parts.singles ++ parts.lastWord scan.previousRank last) (seen ++ [last]) := by
  obtain ⟨chain, follows⟩ := scanned.gapsThenRun_iff.mp runs
  obtain ⟨none, _, _⟩ | ⟨broken, _⟩ := scanned.ending
  · obtain ⟨nonempty, clean⟩ := @Scanned.lastWord_word _ _ _ last scanned
    have list : seen ++ [last] = parts.singles ++ (parts.first :: (parts.run ++ [last])) := by
      rw [scanned.seen_eq, append_assoc, cons_append]
    have whole : (parts.first :: (parts.run ++ [last])).IsChain Follows := by
      rw [← cons_append, isChain_append]
      refine ⟨chain, isChain_singleton last, fun rank member other found => ?_⟩
      rw [scanned.previous, Option.mem_some_iff] at member
      rw [List.head?_singleton, Option.mem_some_iff] at found
      rwa [← member, ← found]
    have within := (mem_run (parts.run ++ [last]) whole (by
      rw [← cons_append, List.getLast?_concat])).2
    have text : ∀ rank ∈ seen ++ [last], number? (rankText rank) = some rank.natAbs :=
      fun rank member => number?_rankText_small (nonneg rank member) (small rank member)
    have cast : ∀ rank ∈ seen ++ [last], (rank.natAbs : Int) = rank :=
      fun rank member => Int.natAbs_of_nonneg (nonneg rank member)
    have firstMember : parts.first ∈ seen ++ [last] := by simp [list]
    have lastMember : last ∈ seen ++ [last] := by simp
    have singleMember : ∀ rank ∈ parts.singles, rank ∈ seen ++ [last] := by
      intro rank member
      rw [list]
      exact mem_append_left _ member
    have read : readWord (parts.lastWord scan.previousRank last) = some (parts.first, last) := by
      have next : last = scan.previousRank + 1 := follows
      rw [Parts.lastWord, none, nil_append, if_pos next,
        readWord_range (text _ firstMember) (text _ lastMember), cast _ firstMember,
        cast _ lastMember]
    have singles : parts.singles.mapM (readWord ∘ rankText) =
        some (parts.singles.map fun rank => (rank, rank)) := by
      refine Fallible.mapM_eq_some fun rank member => ?_
      rw [Function.comp_apply, readWord_number (text rank (singleMember rank member)), cast rank (singleMember rank member)]
    refine ⟨(parts.singles.map fun rank => (rank, rank)) ++ [(parts.first, last)], ?_, fun rank => ?_⟩
    · rw [readRanges, words_spaced _ nonempty clean, List.mapM_append, List.mapM_map, singles]
      simp [read]
    · rw [IntRanges.within_concat, list, mem_append, within rank]
      refine or_congr_left ?_
      simp only [Within, List.mem_map]
      constructor
      · rintro ⟨_, ⟨single, member, rfl⟩, above, below⟩
        rwa [Int.le_antisymm below above]
      · exact fun member => ⟨_, ⟨rank, member, rfl⟩, Int.le_refl rank, Int.le_refl rank⟩
  · exact absurd chain broken

theorem le_getLast {ranks : List Int} (ascending : ranks.Pairwise (· < ·)) {last : Int}
    (ends : ranks.getLast? = some last) : ∀ rank ∈ ranks, rank ≤ last := by
  obtain ⟨before, rfl⟩ := List.getLast?_eq_some_iff.mp ends
  rw [pairwise_append] at ascending
  intro rank member
  rcases mem_append.mp member with earlier | here
  · exact Int.le_of_lt (ascending.2.2 rank earlier last (mem_singleton.mpr rfl))
  · exact Int.le_of_eq (mem_singleton.mp here)

theorem value_append_lt {before rest digits : List Char} (positive : 0 < DecimalText.value before) :
    DecimalText.value digits < DecimalText.value (before ++ rest ++ digits) := by
  have split : ∀ left right : List Char, DecimalText.value (left ++ right) =
      10 ^ right.length * DecimalText.value left + DecimalText.value right := by
    intro left right
    rw [DecimalText.value, Nat.ofDigitChars_append, Nat.ofDigitChars_eq_ofDigitChars_zero]
    rfl
  have front : 0 < DecimalText.value (before ++ rest) := by
    rw [split]
    have most := Nat.mul_pos (Nat.pow_pos (n := rest.length) (by decide : 0 < 10)) positive
    omega
  have whole := Nat.mul_pos (Nat.pow_pos (n := digits.length) (by decide : 0 < 10)) front
  rw [split (before ++ rest)]
  omega

theorem Scanned.runs_of_denotes (scanned : Scanned seen scan parts)
    (ascending : (seen ++ [last]).Pairwise (· < ·)) (above : scan.previousRank < last)
    (nonneg : ∀ rank ∈ seen ++ [last], 0 ≤ rank)
    (denotes : Denotes (spaced parts.singles ++ parts.lastWord scan.previousRank last) (seen ++ [last])) :
    (∀ rank ∈ seen ++ [last], rank < 2 ^ 31) ∧ GapsThenRun (seen ++ [last]) := by
  obtain ⟨nonempty, clean⟩ := @Scanned.lastWord_word _ _ _ last scanned
  obtain ⟨ranges, read, exact⟩ := denotes
  rw [readRanges, words_spaced _ nonempty clean] at read
  obtain ⟨range, inRanges, own⟩ := Fallible.value_of_mapM read _ (List.mem_append_right _
    (mem_singleton.mpr rfl))
  have ascendingSeen := (pairwise_append.mp ascending).1
  have belowLast := le_getLast ascending List.getLast?_concat
  have belowPrevious := @le_getLast seen ascendingSeen scan.previousRank (by
    rw [scanned.seen_eq, List.getLast?_append, scanned.previous, Option.some_or])
  have list := scanned.seen_eq
  have firstMember : parts.first ∈ seen := by simp [list]
  have singles : ∀ single ∈ parts.singles, single ∈ seen ∧ single < parts.first := by
    intro single member
    rw [list, pairwise_append] at ascendingSeen
    exact ⟨by simp [list, member], ascendingSeen.2.2 single member _ List.mem_cons_self⟩
  -- The first rank of the run and the last rank are above the single ones: the last word has them.
  have covered : ∀ rank ∈ seen ++ [last], parts.first ≤ rank → range.1 ≤ rank ∧ rank ≤ range.2 := by
    intro rank member least
    obtain ⟨other, inside, low, high⟩ := (exact rank).mpr member
    obtain ⟨word, among, gives⟩ := Fallible.mem_of_mapM read other inside
    rcases mem_append.mp among with early | here
    · obtain ⟨single, isSingle, rfl⟩ := List.mem_map.mp early
      obtain ⟨point, bound, same⟩ := readWord_rankText gives
      obtain ⟨known, less⟩ := singles single isSingle
      have value := same (nonneg single (mem_append_left _ known)) (by omega)
      omega
    · rw [mem_singleton.mp here, own] at gives
      rw [Option.some.inj gives]
      exact ⟨low, high⟩
  have least := belowPrevious _ firstMember
  have top := covered last (by simp) (by omega)
  have bottom := covered parts.first (mem_append_left _ firstMember) (Int.le_refl _)
  have ends : range.2 = last := by
    have member := (exact range.2).mp ⟨range, inRanges, by omega, Int.le_refl _⟩
    exact Int.le_antisymm (belowLast _ member) top.2
  by_cases next : last = scan.previousRank + 1
  · rw [Parts.lastWord, if_pos next, ← append_assoc] at own
    obtain ⟨low, high, left, right, rfl⟩ := readWord_hyphen own
    have small : last < 2 ^ 31 := ends ▸ (number?_rankText right).1
    have allSmall : ∀ rank ∈ seen ++ [last], rank < 2 ^ 31 := fun rank member =>
      Int.lt_of_le_of_lt (belowLast rank member) small
    refine ⟨allSmall, scanned.gapsThenRun_iff.mpr ⟨?_, next⟩⟩
    obtain ⟨_, chain, _⟩ | ⟨_, _, other, member, less, rest, shown⟩ := scanned.ending
    · exact chain
    · have otherMember : other ∈ seen := by simp [list, member]
      have text : ∀ rank ∈ seen, rankText rank = Nat.toDigits 10 rank.natAbs := fun rank member =>
        rankText_small (nonneg rank (mem_append_left _ member))
          (allSmall rank (mem_append_left _ member))
      have value : ∀ number : Nat, DecimalText.value (Nat.toDigits 10 number) = number :=
        fun number => Nat.ofDigitChars_ten_toDigits
      have firstNonneg := nonneg _ (mem_append_left [last] firstMember)
      have larger := @value_append_lt (rankText other) rest (rankText parts.first) (by
        rw [text other otherMember, value]
        omega)
      rw [← shown, ← (number?_eq_some left).2, text _ firstMember, value] at larger
      simp only at bottom
      omega
  · have member := (exact (last - 1)).mp ⟨range, inRanges, by omega, by omega⟩
    rcases mem_append.mp member with early | here
    · have bound := belowPrevious _ early
      omega
    · have same := mem_singleton.mp here
      omega

end

theorem denotes_single (nonneg : 0 ≤ rank) : Denotes (rankText rank) [rank] ↔ rank < 2 ^ 31 := by
  obtain ⟨nonempty, clean⟩ := rankText_word rank
  have word := words_single nonempty clean
  constructor
  · rintro ⟨ranges, read, exact⟩
    rw [readRanges, word] at read
    obtain ⟨range, inside, low, high⟩ := (exact rank).mpr (mem_singleton.mpr rfl)
    obtain ⟨other, among, gives⟩ := Fallible.mem_of_mapM read range inside
    rw [mem_singleton.mp among] at gives
    have bound := (readWord_rankText gives).2.1
    omega
  · intro small
    refine ⟨[(rank, rank)], ?_, fun other => ?_⟩
    · have own := readWord_number (number?_rankText_small nonneg small)
      rw [Int.natAbs_of_nonneg nonneg] at own
      rw [readRanges, word]
      simp [own]
    · simp only [Within, mem_singleton, exists_eq_left]
      omega

theorem getRankRange_several (first last : Int) (middle : List Int)
    (ascending : (first :: (middle ++ [last])).Pairwise (· < ·)) :
    ∃ scan parts, Scanned (first :: middle) scan parts ∧ scan.previousRank < last ∧
      getRankRange (first :: (middle ++ [last])) =
        spaced parts.singles ++ parts.lastWord scan.previousRank last := by
  have several : (first :: (middle ++ [last])).length ≠ 1 := by simp
  have count : 1 + middle.length + 1 = (first :: (middle ++ [last])).length := by
    rw [length_cons, List.length_append, List.length_singleton]
    omega
  have begun : scanRank (first :: (middle ++ [last])).length 1 ⟨[], -1, -1, -1, true⟩ first =
      ⟨[], first, first, first, false⟩ := by
    rw [scanRank, if_neg several, if_pos rfl]
  rw [getRankRange, scanRanks, begun]
  exact scanRanks_eq several last middle (scanned_first first) count ascending

/-- The text denotes the ranks of a list exactly when each of them is an `int` and they are at most
one, or single ones with a run of at least two behind them. -/
theorem getRankRange_denotes_iff {ranks : List Int} (ascending : ranks.Pairwise (· < ·))
    (nonneg : ∀ rank ∈ ranks, 0 ≤ rank) :
    Denotes (getRankRange ranks) ranks ↔
      (∀ rank ∈ ranks, rank < 2 ^ 31) ∧ (ranks.length ≤ 1 ∨ GapsThenRun ranks) := by
  cases ranks with
  | nil =>
    have empty : Denotes (getRankRange []) [] := ⟨[], rfl, by simp [Within]⟩
    simp [empty]
  | cons first rest =>
    rcases List.eq_nil_or_concat rest with rfl | ⟨middle, last, rfl⟩
    · refine (denotes_single (nonneg first List.mem_cons_self)).trans ?_
      simp
    · rw [List.concat_eq_append] at ascending nonneg ⊢
      obtain ⟨scan, parts, scanned, above, shown⟩ :=
        getRankRange_several first last middle ascending
      have several : ¬ (first :: (middle ++ [last])).length ≤ 1 := by simp
      rw [shown, or_iff_right several]
      constructor
      · exact scanned.runs_of_denotes ascending above nonneg
      · rintro ⟨small, runs⟩
        exact scanned.denotes nonneg small runs

theorem getRankRange_denotes_fourRanks : Denotes (getRankRange [1, 3, 10, 11]) [1, 3, 10, 11] :=
  (getRankRange_denotes_iff (by decide) (by decide)).mpr ⟨by decide, .inr (by simp [GapsThenRun, Follows])⟩

theorem getRankRange_twoRanks : ¬ Denotes (getRankRange [0, 2]) [0, 2] := by
  obtain ⟨scan, parts, scanned, above, shown⟩ := getRankRange_several 0 2 [] (by decide)
  have text : getRankRange [0, 2] = _ := shown
  intro denotes
  rw [text] at denotes
  have runs := (scanned.runs_of_denotes (by decide) above (by decide) denotes).2
  simp [GapsThenRun, Follows] at runs

end OpenSpeedShop.RankRange
