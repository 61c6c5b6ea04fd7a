import OpenSpeedShop.Library.CString
import Mathlib.Data.List.Forall2

/-! The stack of input sources that `Read_Command` takes the lines from. -/

namespace OpenSpeedShop.InputSources

open CString (upToNul firstLine lines chunk fgets)

abbrev Line := List UInt8

/-- The C string at `buffer` is valid up to `lastValidData`. A source that reads a file keeps in
`fp` what is left of it. -/
structure InputSource where
  inputObject : Option Line
  fp : Option (List UInt8)
  bufferSize : Nat
  nextLineAt : Nat
  lastValidData : Nat
  buffer : List UInt8

/-- The arguments of the three constructors; `memory` is what `malloc` gives. -/
inductive Origin
  | object (clip : Line)
  | file (memory : Vector UInt8 4096) (content : List UInt8)
  | text (content : List UInt8)

def Origin.source : Origin → InputSource
  | .object clip => ⟨some clip, none, 0, 0, 0, []⟩
  | .file memory content => ⟨none, some content, 4096, 0, 0, memory.toList⟩
  | .text content => ⟨none, none, content.length + 1, 0, content.length, content ++ [0]⟩

def InputSource.nextLine (source : InputSource) : Option Line × InputSource :=
  let line := upToNul 0 (source.buffer.drop source.nextLineAt)
  if line = [] then (none, source)
  else (some line, { source with nextLineAt := source.nextLineAt + line.length })

def InputSource.getNextLine (source : InputSource) : Bool × Option Line × InputSource :=
  if source.lastValidData ≤ source.nextLineAt then
    match source.fp with
    | none => (false, none, source)
    | some file =>
      let cleared := (source.buffer.set 0 0).set (source.bufferSize - 1) 0
      let read := fgets 10 0 source.bufferSize cleared file
      let source :=
        { source with fp := some read.2, nextLineAt := 0, lastValidData := 0, buffer := read.1 }
      if read.1.getD (source.bufferSize - 1) 0 ≠ 0 then (true, none, source)
      else (false, { source with lastValidData := (upToNul 0 read.1).length }.nextLine)
  else (false, source.nextLine)

def readCommand : List InputSource → Nat × Option Line × List InputSource
  | [] => (0, none, [])
  | input :: next =>
    match input.inputObject with
    | some clip => (0, some clip, next)
    | none =>
      match input.getNextLine with
      | (reported, some line, input) => (reported.toNat, some line, input :: next)
      | (reported, none, _) =>
        let (reports, line, left) := readCommand next
        (reported.toNat + reports, line, left)

inductive Action
  | append (origin : Origin)
  | push (origin : Origin)
  | read

def results : List InputSource → List Action → List (Nat × Option Line)
  | _, [] => []
  | input, .append origin :: more => results (input ++ [origin.source]) more
  | input, .push origin :: more => results (origin.source :: input) more
  | input, .read :: more =>
    let (reports, line, left) := readCommand input
    (reports, line) :: results left more

/-! What they should give: the lines that are due, without those too long for the buffer. -/

def Origin.lines : Origin → List (Option Line)
  | .object clip => [some clip]
  | .file _ content =>
    (CString.lines 10 content).map fun line => if line.length < 4096 then some line else none
  | .text content => (CString.lines 10 content).map some

def nextDue : List (Option Line) → Nat × Option Line × List (Option Line)
  | [] => (0, none, [])
  | some line :: more => (0, some line, more)
  | none :: more =>
    let (reports, line, left) := nextDue more
    (1 + reports, line, left)

def expected : List (Option Line) → List Action → List (Nat × Option Line)
  | _, [] => []
  | due, .append origin :: more => expected (due ++ origin.lines) more
  | due, .push origin :: more => expected (origin.lines ++ due) more
  | due, .read :: more =>
    let (reports, line, left) := nextDue due
    (reports, line) :: expected left more

def Origin.Plain : Origin → Prop
  | .object _ => True
  | .file _ content => ∀ line ∈ CString.lines 10 content, 0 ∉ line ∧ line.length < 4096
  | .text content => (CString.lines 10 content).length ≤ 1 ∧ 0 ∉ content

def Action.Plain : Action → Prop
  | .append origin | .push origin => origin.Plain
  | .read => True

inductive Holds : InputSource → List Line → Prop
  | object (clip : Line) : Holds (Origin.object clip).source [clip]
  | file {source : InputSource} {content : List UInt8} (reads : source.inputObject = none)
      (open_ : source.fp = some content) (size : source.bufferSize = 4096)
      (done : source.lastValidData ≤ source.nextLineAt)
      (plain : ∀ line ∈ lines 10 content, 0 ∉ line ∧ line.length < 4096) :
      Holds source (lines 10 content)
  | text {content : List UInt8} (some_ : content ≠ []) (string : 0 ∉ content) :
      Holds (Origin.text content).source [content]
  | done {source : InputSource} (reads : source.inputObject = none) (closed : source.fp = none)
      (done : source.lastValidData ≤ source.nextLineAt) : Holds source []

theorem upToNul_cleared (buffer : List UInt8) (place : Nat) :
    upToNul 0 ((buffer.set 0 0).set place 0) = [] := by
  cases buffer with
  | nil => rfl
  | cons byte rest =>
    cases place <;> exact List.takeWhile_cons_of_neg (by simp)

variable {source : InputSource}

theorem nextLine_empty (empty : upToNul 0 (source.buffer.drop source.nextLineAt) = []) :
    source.nextLine = (none, source) := by
  simp only [InputSource.nextLine, empty, if_true]

theorem nextLine_some {line : Line} (some_ : line ≠ [])
    (next : upToNul 0 (source.buffer.drop source.nextLineAt) = line) :
    source.nextLine = (some line, { source with nextLineAt := source.nextLineAt + line.length }) := by
  simp only [InputSource.nextLine, next, some_, if_false]

theorem read_last {size : Nat} (room : 1 < size) (buffer file : List UInt8) :
    (fgets 10 0 size ((buffer.set 0 0).set (size - 1) 0) file).1.getD (size - 1) 0 = 0 := by
  refine CString.fgets_last room ?_ file
  rw [List.getD_eq_getElem?_getD, List.getElem?_set_self']
  cases (buffer.set 0 0)[size - 1]? <;> rfl

theorem getNextLine_file {file : List UInt8}
    (done : source.lastValidData ≤ source.nextLineAt) (open_ : source.fp = some file)
    (room : 1 < source.bufferSize) : source.getNextLine =
      let cleared := (source.buffer.set 0 0).set (source.bufferSize - 1) 0
      let read := fgets 10 0 source.bufferSize cleared file
      (false,
        { source with
          fp := some read.2
          nextLineAt := 0
          lastValidData := (upToNul 0 read.1).length
          buffer := read.1 }.nextLine) := by
  have last := read_last room source.buffer file
  rw [InputSource.getNextLine, if_pos done, open_]
  exact if_neg (not_not.mpr last)

theorem getNextLine_unreported (room : 1 < source.bufferSize) : source.getNextLine.1 = false := by
  by_cases done : source.lastValidData ≤ source.nextLineAt
  · cases open_ : source.fp with
    | none => rw [InputSource.getNextLine, if_pos done, open_]
    | some file => rw [getNextLine_file done open_ room]
  · rw [InputSource.getNextLine, if_neg done]

theorem readCommand_unreported (source : InputSource) (room : 1 < source.bufferSize) :
    (readCommand [source]).1 = 0 := by
  have unreported := getNextLine_unreported room
  rw [readCommand]
  split
  · rfl
  · split
    · next same =>
        rw [same] at unreported
        exact congrArg Bool.toNat unreported
    · next same =>
        rw [same] at unreported
        exact congrArg Bool.toNat unreported

theorem getNextLine_done (closed : source.fp = none) (done : source.lastValidData ≤ source.nextLineAt) :
    source.getNextLine = (false, none, source) := by
  rw [InputSource.getNextLine, if_pos done, closed]

theorem getNextLine_eof (done : source.lastValidData ≤ source.nextLineAt)
    (open_ : source.fp = some []) (size : source.bufferSize = 4096) :
    ∃ left, source.getNextLine = (false, none, left) := by
  rw [getNextLine_file done open_ (by omega)]
  simp only [CString.fgets_eof (show 1 < source.bufferSize by omega)]
  exact ⟨_, congrArg (Prod.mk false) (nextLine_empty (upToNul_cleared _ _))⟩

theorem getNextLine_line {file : List UInt8}
    (done : source.lastValidData ≤ source.nextLineAt) (open_ : source.fp = some file)
    (size : source.bufferSize = 4096) (more : file ≠ []) (string : 0 ∉ firstLine 10 file)
    (fits : (firstLine 10 file).length < 4096) :
    ∃ left, source.getNextLine = (false, some (firstLine 10 file), left) ∧
      left.inputObject = source.inputObject ∧
      left.fp = some (file.drop (firstLine 10 file).length) ∧ left.bufferSize = 4096 ∧
      left.lastValidData ≤ left.nextLineAt := by
  have whole : chunk 10 (source.bufferSize - 1) file = firstLine 10 file :=
    List.take_of_length_le (by omega)
  have cut (behind : List UInt8) : upToNul 0 (firstLine 10 file ++ 0 :: behind) = firstLine 10 file := by
    rw [CString.upToNul_append_nul, CString.upToNul_eq string]
  rw [getNextLine_file done open_ (by omega)]
  simp only [CString.fgets_more (show 1 < source.bufferSize by omega) _ more, whole, cut]
  exact ⟨_, congrArg (Prod.mk false) (nextLine_some (CString.firstLine_ne_nil more) (cut _)),
    rfl, rfl, size, le_of_eq (Nat.zero_add _).symm⟩

theorem getNextLine_text {content : List UInt8} (some_ : content ≠ []) (string : 0 ∉ content) :
    ∃ left, (Origin.text content).source.getNextLine = (false, some content, left) ∧
      left.inputObject = none ∧ left.fp = none ∧ left.lastValidData ≤ left.nextLineAt := by
  have fresh : ¬ (Origin.text content).source.lastValidData ≤ 0 := by
    rwa [Nat.le_zero, Origin.source, List.length_eq_zero_iff]
  have next : upToNul 0 ((content ++ [0]).drop 0) = content := by
    rw [List.drop_zero, CString.upToNul_ended, CString.upToNul_eq string]
  rw [InputSource.getNextLine]
  refine ⟨_, (if_neg fresh).trans (congrArg (Prod.mk false) (nextLine_some some_ next)), rfl, rfl,
    le_of_eq (Nat.zero_add _).symm⟩

theorem holds_source {origin : Origin} (plain : origin.Plain) :
    ∃ held, Holds origin.source held ∧ origin.lines = held.map some := by
  cases origin with
  | object clip => exact ⟨[clip], .object clip, rfl⟩
  | file memory content =>
    refine ⟨lines 10 content, .file rfl rfl rfl (Nat.le_refl 0) plain, ?_⟩
    refine List.map_congr_left fun line member => if_pos (plain line member).2
  | text content =>
    cases content with
    | nil => exact ⟨[], .done rfl rfl (Nat.le_refl 0), rfl⟩
    | cons byte rest =>
      have one := plain.1
      have whole : lines 10 (byte :: rest) = [byte :: rest] := by
        have front := @CString.firstLine_prefixed UInt8 _ 10 (byte :: rest)
        rw [CString.lines_cons] at one ⊢
        cases behind : (byte :: rest).drop (firstLine 10 (byte :: rest)).length with
        | nil =>
          rw [behind, List.append_nil] at front
          rw [← front, lines]
        | cons next last =>
          rw [behind, CString.lines_cons] at one
          simp at one
      exact ⟨[byte :: rest], .text (List.cons_ne_nil _ _) plain.2, congrArg _ whole⟩

variable {input : List InputSource} {held : List (List Line)}

theorem readCommand_holds (holds : List.Forall₂ Holds input held) :
    ∃ left rest, readCommand input = (0, held.flatten.head?, left) ∧
      List.Forall₂ Holds left rest ∧ rest.flatten = held.flatten.tail := by
  induction holds with
  | nil => exact ⟨[], [], rfl, .nil, rfl⟩
  | @cons source own next others first following ih =>
    have skipped (reads : source.inputObject = none) (nothing : own = [])
        (stops : ∃ left, source.getNextLine = (false, none, left)) :
        ∃ left rest, readCommand (source :: next) = (0, (own :: others).flatten.head?, left) ∧
          List.Forall₂ Holds left rest ∧ rest.flatten = (own :: others).flatten.tail := by
      obtain ⟨left, rest, taken, sound, same⟩ := ih
      obtain ⟨stopped, stops⟩ := stops
      refine ⟨left, rest, ?_, sound, by rw [nothing]; exact same⟩
      rw [readCommand, reads, nothing]
      simp only [stops, taken]
      rfl
    cases first with
    | object clip => exact ⟨next, others, rfl, following, rfl⟩
    | @file _ content reads open_ size done plain =>
      cases content with
      | nil => exact skipped reads rfl (getNextLine_eof done open_ size)
      | cons byte rest =>
        rw [CString.lines_cons] at plain ⊢
        have ⟨string, fits⟩ := plain _ List.mem_cons_self
        obtain ⟨left, taken, reads', open', size', done'⟩ :=
          getNextLine_line done open_ size (List.cons_ne_nil _ _) string fits
        have plain' := fun line member => plain line (List.mem_cons_of_mem _ member)
        refine ⟨left :: next, _ :: others, ?_,
          .cons (.file (reads'.trans reads) open' size' done' plain') following, rfl⟩
        rw [readCommand, reads]
        simp only [taken]
        rfl
    | text some_ string =>
      obtain ⟨left, taken, reads, closed, done⟩ := getNextLine_text some_ string
      refine ⟨left :: next, [] :: others, ?_, .cons (.done reads closed done) following, rfl⟩
      rw [readCommand]
      simp only [taken]
      rfl
    | done reads closed done =>
      exact skipped reads rfl ⟨_, getNextLine_done closed done⟩

theorem nextDue_map_some (held : List Line) :
    nextDue (held.map some) = (0, held.head?, held.tail.map some) := by
  cases held <;> rfl

theorem results_holds (holds : List.Forall₂ Holds input held) {actions : List Action}
    (plain : ∀ action ∈ actions, action.Plain) :
    results input actions = expected (held.flatten.map some) actions := by
  induction actions generalizing input held with
  | nil => rfl
  | cons action more ih =>
    have ⟨now, later⟩ := List.forall_mem_cons.mp plain
    cases action with
    | append origin =>
      obtain ⟨own, first, same⟩ := holds_source now
      have step := ih (List.rel_append holds (.cons first .nil)) later
      rw [results, expected, step, same, List.flatten_append, List.map_append]
      simp
    | push origin =>
      obtain ⟨own, first, same⟩ := holds_source now
      have step := ih (.cons first holds) later
      rw [results, expected, step, same, List.flatten_cons, List.map_append]
    | read =>
      obtain ⟨left, rest, taken, sound, same⟩ := readCommand_holds holds
      have step := ih sound later
      rw [results, expected, taken, nextDue_map_some, ← same]
      exact congrArg _ step

/-- Read_Command delivers every line once, whole and in the order of the stack. -/
theorem results_eq_expected {actions : List Action} (plain : ∀ action ∈ actions, action.Plain) :
    results [] actions = expected [] actions :=
  results_holds .nil plain

theorem results_eq_expected_pushed :
    let actions := [.append (.object [108]),
      .push (.file (Vector.replicate 4096 0) [97, 10, 98]), .read, .read, .read]
    results [] actions = expected [] actions :=
  results_eq_expected (by simp [Action.Plain, Origin.Plain, CString.lines])

theorem results_ne_expected (memory : Vector UInt8 4096) {content : List UInt8}
    (single : 10 ∉ content) (long : 4096 ≤ content.length) :
    results [] [.append (.file memory content), .read] ≠
      expected [] [.append (.file memory content), .read] := by
  intro same
  have some_ : content ≠ [] := List.ne_nil_of_length_pos (by omega)
  have due : expected [] [.append (.file memory content), .read] = [(1, none)] := by
    rw [expected, expected, Origin.lines, CString.lines_of_not_mem some_ single, List.map_cons,
      if_neg (not_lt.mpr long)]
    rfl
  have unreported := readCommand_unreported (Origin.file memory content).source (Nat.le_of_ble_eq_true rfl)
  rw [due] at same
  exact absurd (unreported.symm.trans (congrArg (·.headI.1) same)) Nat.zero_ne_one

theorem results_long :
    let actions := [.append (.file (Vector.replicate 4096 0) (List.replicate 4096 97)), .read]
    results [] actions ≠ expected [] actions :=
  results_ne_expected _ (fun member => absurd (List.eq_of_mem_replicate member) (by decide)) (List.length_replicate ▸ le_refl 4096)

end OpenSpeedShop.InputSources
