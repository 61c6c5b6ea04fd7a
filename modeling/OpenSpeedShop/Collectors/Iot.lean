import OpenSpeedShop.Collectors.IotCore

/-!
When the call stack and the path name that are read for each event are its own.
-/

namespace OpenSpeedShop.Iot

open Terminated Fallible
open List (append_nil nil_prefix length_append not_mem_nil mem_cons_self mem_cons nil_append
  length_nil length_cons cons_append)

section

variable {Item : Type} [DecidableEq Item] {terminator : Item}

/-- How a search ends: at a string that is stored, behind all of them, or without a place. -/
inductive Lookup (Item : Type)
  | missing
  | found (before : List (List Item)) (string : List Item)
  | behind

def lookupFrom (tail : List Item) (before : List (List Item)) : List (List Item) → Lookup Item
  | [] => if tail = [] then .behind else .missing
  | string :: others =>
    if tail <+: string.tail then .found before string
    else lookupFrom tail (before ++ [string]) others

def lookup (wanted : List Item) : List (List Item) → Lookup Item
  | [] => if wanted = [] then .behind else .missing
  | string :: others =>
    if wanted <+: string then .found [] string else lookupFrom wanted.tail [string] others

def Lookup.Ends (terminator : Item) (stored : List (List Item)) (wanted : List Item)
    (result : Nat × Nat) : Lookup Item → Prop
  | .missing => result.2 ≠ wanted.length
  | .found before string => (∃ after, stored = before ++ string :: after) ∧
      result = ((flat terminator before).length, wanted.length)
  | .behind => result = ((flat terminator stored).length, wanted.length)

theorem advance_terminated {string : List Item} (clean : terminator ∉ string) (rest : List Item) :
    ∀ start, advance terminator start (string ++ terminator :: rest) = start + string.length := by
  induction string with
  | nil => simp [advance]
  | cons item string ih =>
    intro start
    rw [mem_cons, not_or] at clean
    obtain ⟨apart, clean⟩ := clean
    rw [cons_append, advance, if_pos (Ne.symm apart), ih clean, length_cons]
    omega

theorem search_string {string wanted : List Item} (clean : terminator ∉ string)
    (cleanWanted : terminator ∉ wanted) (front rest : List Item) (remaining : Nat) :
    ∀ i, wanted.length - i = remaining → i ≤ wanted.length → i ≤ string.length →
      search terminator (front ++ (string ++ terminator :: rest)) wanted front.length i =
        if wanted.drop i <+: string.drop i then (front.length, wanted.length)
        else search terminator (front ++ (string ++ terminator :: rest)) wanted
          (front.length + string.length + 1) 1 := by
  induction remaining with
  | zero =>
    intro i left within inside
    have ends : i = wanted.length := by omega
    rw [search, dif_neg (by omega), ends, List.drop_length, if_pos nil_prefix]
  | succ remaining ih =>
    intro i left within inside
    have goes : i < wanted.length := by omega
    have insideBuffer : front.length + i < (front ++ (string ++ terminator :: rest)).length := by
      simp only [length_append, length_cons]
      omega
    have dropped : (front ++ (string ++ terminator :: rest)).drop (front.length + i) =
        string.drop i ++ terminator :: rest := by
      rw [List.drop_append, List.drop_of_length_le (Nat.le_add_right _ _), nil_append,
        Nat.add_sub_cancel_left, List.drop_append_of_le_length inside]
    have cleanDrop : terminator ∉ string.drop i := fun member => clean (List.mem_of_mem_drop member)
    have advances : advance terminator (front.length + i) (string.drop i ++ terminator :: rest) =
        front.length + string.length := by
      rw [advance_terminated cleanDrop, List.length_drop]
      omega
    have item := List.drop_eq_getElem_cons insideBuffer
    rw [dropped] at item
    have wantedItem := List.drop_eq_getElem_cons goes
    have apart : wanted[i] ≠ terminator := fun same => cleanWanted (same ▸ List.getElem_mem goes)
    rw [search, dif_pos ⟨goes, insideBuffer⟩, dropped, advances, wantedItem]
    cases ends : string.drop i with
    | nil =>
      rw [ends, nil_append] at item
      have noPrefix : ¬ wanted[i] :: wanted.drop (i + 1) <+: [] :=
        fun isPrefix => List.cons_ne_nil _ _ (List.prefix_nil.mp isPrefix)
      rw [← (List.cons.inj item).1, if_pos apart, if_neg noPrefix]
    | cons first others =>
      rw [ends, cons_append] at item
      rw [← (List.cons.inj item).1]
      by_cases same : wanted[i] = first
      · have longer : i + 1 ≤ string.length := by
          have length := congrArg List.length ends
          rw [List.length_drop, length_cons] at length
          omega
        have next : string.drop (i + 1) = others := by
          rw [← List.drop_drop, ends, List.drop_succ_cons, List.drop_zero]
        rw [if_neg (not_not.mpr same), ih (i + 1) (by omega) goes longer, next]
        simp [same]
      · have noPrefix : ¬ wanted[i] :: wanted.drop (i + 1) <+: first :: others :=
          fun isPrefix => same (List.cons_prefix_cons.mp isPrefix).1
        rw [if_pos same, if_neg noPrefix]

variable {wanted : List Item}

theorem search_from (cleanWanted : terminator ∉ wanted) (some : wanted ≠ []) (others : List (List Item)) :
    ∀ before, (∀ string ∈ others, string ≠ [] ∧ terminator ∉ string) →
      (lookupFrom wanted.tail before others).Ends terminator (before ++ others) wanted
        (search terminator (flat terminator (before ++ others)) wanted (flat terminator before).length 1) := by
  have long : 1 ≤ wanted.length := List.length_pos_iff.mpr some
  induction others with
  | nil =>
    intro before _
    rw [append_nil, search, dif_neg (by omega), lookupFrom]
    split
    · rename_i short
      have one : wanted.length = 1 := by
        have length := congrArg List.length short
        rw [List.length_tail, length_nil] at length
        omega
      rw [Lookup.Ends, one]
    · rename_i longer
      intro one
      refine longer (List.eq_nil_of_length_eq_zero ?_)
      rw [List.length_tail]
      omega
  | cons string others ih =>
    intro before valid
    obtain ⟨nonempty, clean⟩ := valid string mem_cons_self
    have first : 1 ≤ string.length := List.length_pos_iff.mpr nonempty
    have rest := ih (before ++ [string]) fun other member => valid other (List.mem_cons_of_mem _ member)
    have length : (flat terminator (before ++ [string])).length =
        (flat terminator before).length + string.length + 1 := by
      simp [flat_snoc]
      omega
    rw [flat_append, flat_cons, search_string clean cleanWanted _ _ _ 1 rfl long first,
      lookupFrom, List.drop_one, List.drop_one]
    split
    · exact ⟨⟨others, rfl⟩, rfl⟩
    · rw [← flat_cons, ← flat_append, ← length]
      simpa using rest

variable {stored : List (List Item)}

theorem search_ends (cleanWanted : terminator ∉ wanted)
    (clean : ∀ string ∈ stored, terminator ∉ string) (nonempty : ∀ string ∈ stored.tail, string ≠ []) :
    (lookup wanted stored).Ends terminator stored wanted
      (search terminator (flat terminator stored) wanted 0 0) := by
  cases stored with
  | nil =>
    rw [lookup, search, dif_neg (by simp)]
    split
    · rename_i empty
      rw [empty]
      rfl
    · rename_i some
      exact fun same => some (List.eq_nil_of_length_eq_zero same.symm)
  | cons string others =>
    have cleanFirst := clean string mem_cons_self
    have start := search_string cleanFirst cleanWanted [] (flat terminator others) _ 0 rfl
      (Nat.zero_le _) (Nat.zero_le _)
    simp only [nil_append, length_nil, List.drop_zero, Nat.zero_add] at start
    rw [flat_cons, start, lookup]
    split
    · exact ⟨⟨others, rfl⟩, rfl⟩
    · rename_i apart
      have some : wanted ≠ [] := fun empty => apart (empty ▸ nil_prefix)
      have rest := search_from cleanWanted some others [string] fun other member =>
        ⟨nonempty other member, clean other (List.mem_cons_of_mem _ member)⟩
      simpa [flat_cons] using rest

def Lookup.result (wanted : List Item) : Lookup Item → Option (List Item)
  | .missing => some wanted
  | .found _ string => some string
  | .behind => none

theorem ne_nil_of_missing (missing : lookup wanted stored = .missing) : wanted ≠ [] := by
  rintro rfl
  cases stored with
  | nil => simp [lookup] at missing
  | cons string others => simp [lookup] at missing

theorem lookupFrom_found {tail string : List Item} {others : List (List Item)} :
    ∀ {before front : List (List Item)}, lookupFrom tail before others = .found front string →
      ∃ more, front = before ++ more := by
  induction others with
  | nil =>
    intro before front found
    rw [lookupFrom] at found
    split at found <;> cases found
  | cons other others ih =>
    intro before front found
    rw [lookupFrom] at found
    split at found
    · cases found
      exact ⟨[], (append_nil _).symm⟩
    · obtain ⟨more, rfl⟩ := ih found
      exact ⟨other :: more, by simp⟩

end

structure Holds (offline : Bool) (data : Data) (traces : List (List UInt64))
    (paths : List (List UInt8)) (events : List Traced) : Prop where
  stacktraces : data.stacktraces = flat 0 traces
  pathnames : data.pathnames = flat 0 ([] :: paths)
  traceStrings : ∀ trace ∈ traces, trace ≠ [] ∧ 0 ∉ trace
  pathStrings : ∀ path ∈ paths, path ≠ [] ∧ 0 ∉ path
  events : data.decode = some events
  tracesFit : data.stacktraces.length ≤ stackTraceBufferSize offline
  pathsFit : data.pathnames.length ≤ pathBufferSize
  room : data.events.length < eventBufferSize offline

structure Gathered (offline : Bool) (traced : List Traced) (state : State)
    (traces : List (List UInt64)) (paths : List (List UInt8)) (sent events : List Traced) :
    Prop where
  holds : Holds offline state.tls.data traces paths events
  decoded : decode state.sent = some sent
  whole : sent ++ events = traced

section

variable {offline : Bool} {state : State} {traced sent events : List Traced}
  {traces : List (List UInt64)} {paths : List (List UInt8)}

theorem Holds.empty : Holds offline Data.empty [] [] [] where
  stacktraces := rfl
  pathnames := rfl
  traceStrings := by simp
  pathStrings := by simp
  events := rfl
  tracesFit := Nat.zero_le _
  pathsFit := by decide
  room := by cases offline <;> decide

variable {messages : List Message}

theorem decode_snoc {message : Message} {more : List Traced}
    (first : decode messages = some sent) (last : message.data.decode = some more) :
    decode (messages ++ [message]) = some (sent ++ more) := by
  rw [decode] at first ⊢
  rw [gather_snoc, first, Option.bind_some, last, Option.map_some]

theorem Gathered.eventsSent (gathered : Gathered offline traced state traces paths sent events)
    (now : Time) : Gathered offline traced (sendEvents now state) [] [] traced [] where
  holds := Holds.empty
  decoded := gathered.whole ▸ decode_snoc gathered.decoded gathered.holds.events
  whole := append_nil traced

theorem Gathered.decode_stopTracing
    (gathered : Gathered offline traced state traces paths sent events) (now : Time) :
    decode (stopTracing now state) = some traced := by
  rw [stopTracing]
  split
  · exact (gathered.eventsSent now).decoded
  · rename_i unused
    have none : state.tls.data.events = [] := List.eq_nil_of_length_eq_zero (by omega)
    have empty : events = [] := by
      have decoded := gathered.holds.events
      rw [Data.decode, none] at decoded
      exact (Option.some.inj decoded).symm
    rw [gathered.decoded, ← gathered.whole, empty, append_nil]

variable {moreTraces : List UInt64} {morePaths : List UInt8}

theorem traced_append {data longer : Data} {event : Event} {one : Traced}
    (stacktraces : longer.stacktraces = data.stacktraces ++ moreTraces)
    (pathnames : longer.pathnames = data.pathnames ++ morePaths)
    (read : data.traced event = some one) : longer.traced event = some one := by
  rw [Data.traced] at read ⊢
  obtain ⟨trace, readTrace, read⟩ := Option.bind_eq_some_iff.mp read
  obtain ⟨path, readPath, returned⟩ := Option.bind_eq_some_iff.mp read
  have longerPath : longer.pathname event.pathindex = some path := by
    rw [Data.pathname] at readPath ⊢
    split at readPath
    · rename_i named
      rw [if_pos named, pathnames, read_append readPath morePaths]
    · rename_i unnamed
      rw [if_neg unnamed, readPath]
  rw [stacktraces, read_append readTrace moreTraces, longerPath]
  exact returned

theorem decode_longer (data : Data) {longer : Data}
    (stacktraces : longer.stacktraces = data.stacktraces ++ moreTraces)
    (pathnames : longer.pathnames = data.pathnames ++ morePaths)
    (same : longer.events = data.events) (decoded : data.decode = some events) :
    longer.decode = some events := by
  rw [Data.decode] at decoded ⊢
  rw [same]
  exact mapM_mono (fun event one read => traced_append stacktraces pathnames read) decoded

variable {data : Data}

theorem Holds.split_pathnames (holds : Holds offline data traces paths events) :
    split 0 data.pathnames = [] :: paths := by
  rw [holds.pathnames, split_flat]
  intro string member
  rcases mem_cons.mp member with rfl | inPaths
  · exact not_mem_nil
  · exact (holds.pathStrings string inPaths).2

theorem Holds.split_stacktraces (holds : Holds offline data traces paths events) :
    split 0 data.stacktraces = traces := by
  rw [holds.stacktraces, split_flat]
  exact fun string member => (holds.traceStrings string member).2

variable {path : List UInt8}

theorem Holds.addPath (holds : Holds offline data traces paths events)
    (some : path ≠ []) (clean : 0 ∉ path) (fits : data.pathnames.length + path.length < pathBufferSize) :
    Holds offline { data with pathnames := data.pathnames ++ path ++ [0] } traces
      (paths ++ [path]) events where
  stacktraces := holds.stacktraces
  pathnames := by
    rw [← cons_append, flat_snoc, ← holds.pathnames]
  traceStrings := holds.traceStrings
  pathStrings string member := by
    rcases List.mem_append.mp member with old | new
    · exact holds.pathStrings string old
    · exact List.mem_singleton.mp new ▸ ⟨some, clean⟩
  events := decode_longer data (append_nil _).symm (List.append_assoc _ _ _) rfl holds.events
  tracesFit := holds.tracesFit
  pathsFit := by
    simp only [length_append, List.length_singleton]
    omega
  room := holds.room

theorem Holds.addTrace (holds : Holds offline data traces paths events)
    {trace : List UInt64} (some : trace ≠ []) (clean : 0 ∉ trace)
    (fits : data.stacktraces.length + trace.length < stackTraceBufferSize offline) :
    Holds offline { data with stacktraces := data.stacktraces ++ trace ++ [0] } (traces ++ [trace])
      paths events where
  stacktraces := by
    rw [flat_snoc, ← holds.stacktraces]
  pathnames := holds.pathnames
  traceStrings string member := by
    rcases List.mem_append.mp member with old | new
    · exact holds.traceStrings string old
    · exact List.mem_singleton.mp new ▸ ⟨some, clean⟩
  pathStrings := holds.pathStrings
  events := decode_longer data (List.append_assoc _ _ _) (append_nil _).symm rfl holds.events
  tracesFit := by
    simp only [length_append, List.length_singleton]
    omega
  pathsFit := holds.pathsFit
  room := holds.room

def PathSent (data : Data) (path : List UInt8) : Prop :=
  lookup path (split 0 data.pathnames) = .missing ∧ insufficientRoom pathBufferSize data.pathnames path = true

def PathRoom (data : Data) (path : List UInt8) : Prop :=
  lookup path (split 0 data.pathnames) = .missing → path.length + 2 ≤ pathBufferSize

def StackSent (offline : Bool) (data : Data) (stacktrace : List UInt64) : Prop :=
  lookup stacktrace (split 0 data.stacktraces) = .missing ∧
    insufficientRoom (stackTraceBufferSize offline) data.stacktraces stacktrace = true

theorem stackTraceBufferSize_small (offline : Bool) : stackTraceBufferSize offline < 65536 := by
  cases offline <;> decide

variable {place : Nat}

theorem toNat_toUInt16 (small : place < 65536) : place.toUInt16.toNat = place := by
  simp [Nat.toUInt16, Nat.mod_eq_of_lt small]

theorem toUInt16_ne_zero (small : place < 65536) (positive : place ≠ 0) : place.toUInt16 ≠ 0 := by
  intro zero
  have same := congrArg UInt16.toNat zero
  rw [toNat_toUInt16 small] at same
  exact positive same

theorem pathname_at (data : Data) (small : place < 65536) (positive : place ≠ 0) :
    data.pathname place.toUInt16 = read 0 data.pathnames place := by
  rw [Data.pathname, if_pos (toUInt16_ne_zero small positive), toNat_toUInt16 small]

theorem Holds.search_path (holds : Holds offline data traces paths events) (clean : 0 ∉ path) :
    (lookup path ([] :: paths)).Ends 0 ([] :: paths) path (search 0 data.pathnames path 0 0) := by
  rw [holds.pathnames]
  refine search_ends clean ?_ fun string member => (holds.pathStrings string member).1
  intro string member
  rcases mem_cons.mp member with rfl | inPaths
  · exact not_mem_nil
  · exact (holds.pathStrings string inPaths).2

variable {stacktrace : List UInt64}

theorem Holds.search_stack (holds : Holds offline data traces paths events) (clean : 0 ∉ stacktrace) :
    (lookup stacktrace traces).Ends 0 traces stacktrace (search 0 data.stacktraces stacktrace 0 0) := by
  rw [holds.stacktraces]
  exact search_ends clean (fun string member => (holds.traceStrings string member).2)
    fun string member => (holds.traceStrings string (List.mem_of_mem_tail member)).1

def Keeps (offline : Bool) (traced : List Traced) (state next : State) : Prop :=
  next.tls.nesting = state.tls.nesting ∧
    ∃ traces paths sent events, Gathered offline traced next traces paths sent events

section

variable (gathered : Gathered offline traced state traces paths sent events)
include gathered

theorem Gathered.pathAdded (nonempty : path ≠ []) (clean : 0 ∉ path)
    (fits : state.tls.data.pathnames.length + path.length < pathBufferSize) :
    ∃ place next, addPath path state = some (place, next) ∧ Keeps offline traced state next ∧
      next.tls.data.pathname place.toUInt16 = some path ∧ place.toUInt16 ≠ 0 ∧
      next.tls.data.stacktraces = state.tls.data.stacktraces := by
  have holds := gathered.holds.addPath nonempty clean fits
  have small : state.tls.data.pathnames.length < 65536 := by
    simp only [pathBufferSize] at fits
    omega
  have positive : state.tls.data.pathnames.length ≠ 0 := by
    simp [gathered.holds.pathnames]
  refine ⟨state.tls.data.pathnames.length,
    { state with tls.data.pathnames := state.tls.data.pathnames ++ path ++ [0] }, ?_,
    ⟨rfl, _, _, _, _, holds, gathered.decoded, gathered.whole⟩, ?_,
    toUInt16_ne_zero small positive, rfl⟩
  · rw [addPath, add, if_pos fits]
    rfl
  · rw [pathname_at _ small positive, holds.pathnames, gathered.holds.pathnames]
    exact read_flat clean

theorem Gathered.stackAdded (nonempty : stacktrace ≠ []) (clean : 0 ∉ stacktrace)
    (fits : state.tls.data.stacktraces.length + stacktrace.length < stackTraceBufferSize offline) :
    ∃ entry next, addStack offline stacktrace state = some (entry, next) ∧ Keeps offline traced state next ∧
      read 0 next.tls.data.stacktraces entry.toUInt16.toNat = some stacktrace ∧
      next.tls.data.pathnames = state.tls.data.pathnames := by
  have holds := gathered.holds.addTrace nonempty clean fits
  have small : state.tls.data.stacktraces.length < 65536 := by
    have bound := stackTraceBufferSize_small offline
    omega
  refine ⟨state.tls.data.stacktraces.length,
    { state with
      tls.header := stacktrace.foldl updateHeader state.tls.header
      tls.data.stacktraces := state.tls.data.stacktraces ++ stacktrace ++ [0] }, ?_,
    ⟨rfl, _, _, _, _, holds, gathered.decoded, gathered.whole⟩, ?_, rfl⟩
  · rw [addStack, add, if_pos fits]
    rfl
  · rw [toNat_toUInt16 small, holds.stacktraces, gathered.holds.stacktraces]
    exact read_flat clean

theorem Gathered.pathRecorded (clean : 0 ∉ path) (room : PathRoom state.tls.data path) (now : Time) :
    ∃ place next, recordPath now path state = some (place, next) ∧ Keeps offline traced state next ∧
      next.tls.data.pathname place.toUInt16 = (lookup path (split 0 state.tls.data.pathnames)).result path ∧
      (place.toUInt16 = 0 ↔ path = []) ∧ (PathSent state.tls.data path → next.tls.data.stacktraces = []) ∧
      (¬ PathSent state.tls.data path → next.tls.data.stacktraces = state.tls.data.stacktraces) := by
  have ends := gathered.holds.search_path clean
  rw [← gathered.holds.split_pathnames] at ends
  have kept : Keeps offline traced state state := ⟨rfl, _, _, _, _, gathered⟩
  have fit := gathered.holds.pathsFit
  simp only [pathBufferSize] at fit
  generalize look : lookup path (split 0 state.tls.data.pathnames) = ending at ends
  cases ending with
  | missing =>
    have nonempty := ne_nil_of_missing look
    by_cases full : insufficientRoom pathBufferSize state.tls.data.pathnames path = true
    · have fits : (sendEvents now state).tls.data.pathnames.length + path.length <
          pathBufferSize := by
        have short := room look
        have one : (sendEvents now state).tls.data.pathnames.length = 1 := rfl
        omega
      obtain ⟨place, next, added, keeps, reads, positive, same⟩ :=
        (gathered.eventsSent now).pathAdded nonempty clean fits
      refine ⟨place, next, ?_, keeps, reads, by simp [positive, nonempty], fun _ => same,
        fun unsent => absurd ⟨look, full⟩ unsent⟩
      simp only [recordPath, if_neg ends, if_pos full, added]
    · have fits : state.tls.data.pathnames.length + path.length < pathBufferSize := by
        simp only [insufficientRoom, decide_eq_true_eq, ge_iff_le, not_le] at full
        omega
      obtain ⟨place, next, added, keeps, reads, positive, same⟩ :=
        gathered.pathAdded nonempty clean fits
      refine ⟨place, next, ?_, keeps, reads, by simp [positive, nonempty],
        fun sent => absurd sent.2 full,
        fun _ => same⟩
      simp only [recordPath, if_neg ends, if_neg full, added]
  | found before string =>
    obtain ⟨⟨after, stored⟩, result⟩ := ends
    have unsent : ¬ PathSent state.tls.data path := fun sent => by
      rw [PathSent, look] at sent
      cases sent.1
    have whole : state.tls.data.pathnames = flat 0 (before ++ string :: after) := by
      rw [← stored, gathered.holds.split_pathnames, gathered.holds.pathnames]
    have small : (flat (0 : UInt8) before).length < 65536 := by
      have length := congrArg List.length whole
      rw [flat_append, length_append] at length
      omega
    refine ⟨(flat 0 before).length, state, by simp [recordPath, result], kept, ?_, ?_,
      fun sent => absurd sent unsent, fun _ => rfl⟩
    · rw [gathered.holds.split_pathnames] at stored
      by_cases first : before = []
      · rw [first, nil_append] at stored
        rw [first, ← (List.cons.inj stored).1]
        rfl
      · have cleanString : 0 ∉ string := by
          have member : string ∈ [] :: paths := stored ▸ List.mem_append_right _ mem_cons_self
          rcases mem_cons.mp member with rfl | inPaths
          · exact not_mem_nil
          · exact (gathered.holds.pathStrings string inPaths).2
        have positive : (flat (0 : UInt8) before).length ≠ 0 := flat_length_ne_zero first
        rw [pathname_at _ small positive, whole, read_flat cleanString]
        rfl
    · rw [gathered.holds.split_pathnames] at look
      by_cases empty : path = []
      · rw [empty, lookup, if_pos nil_prefix] at look
        obtain ⟨rfl, -⟩ := Lookup.found.inj look
        simp [empty]
      · have apart : ¬ path <+: [] := fun isPrefix => empty (List.prefix_nil.mp isPrefix)
        rw [lookup, if_neg apart] at look
        obtain ⟨more, rfl⟩ := lookupFrom_found look
        have positive := toUInt16_ne_zero small (flat_length_ne_zero (List.cons_ne_nil _ _))
        exact ⟨fun zero => absurd zero positive, fun isNil => absurd isNil empty⟩
  | behind =>
    have unsent : ¬ PathSent state.tls.data path := fun sent => by
      rw [PathSent, look] at sent
      cases sent.1
    have positive : state.tls.data.pathnames.length ≠ 0 := by
      simp [gathered.holds.pathnames]
    have place : (flat (0 : UInt8) (split 0 state.tls.data.pathnames)).length =
        state.tls.data.pathnames.length := by
      rw [gathered.holds.split_pathnames, gathered.holds.pathnames]
    rw [Lookup.Ends, place] at ends
    have nonempty : path ≠ [] := by
      rintro rfl
      rw [gathered.holds.split_pathnames, lookup, if_pos nil_prefix] at look
      cases look
    refine ⟨state.tls.data.pathnames.length, state, by simp [recordPath, ends], kept, ?_, ?_,
      fun sent => absurd sent unsent, fun _ => rfl⟩
    · rw [pathname_at _ (by omega) positive, read_behind (Nat.le_refl _)]
      rfl
    · have small : state.tls.data.pathnames.length < 65536 := by omega
      simp [nonempty, toUInt16_ne_zero small positive]

theorem Gathered.stackRecorded
    (clean : 0 ∉ stacktrace) (short : stacktrace.length ≤ maxFramesPerStackTrace) (now : Time) :
    ∃ entry next, recordStack offline now stacktrace state = some (entry, next) ∧
      Keeps offline traced state next ∧ read 0 next.tls.data.stacktraces entry.toUInt16.toNat =
        (lookup stacktrace (split 0 state.tls.data.stacktraces)).result stacktrace ∧
      (StackSent offline state.tls.data stacktrace → next.tls.data.pathnames = [0]) ∧
      (¬ StackSent offline state.tls.data stacktrace →
        next.tls.data.pathnames = state.tls.data.pathnames) := by
  have ends := gathered.holds.search_stack clean
  rw [← gathered.holds.split_stacktraces] at ends
  have kept : Keeps offline traced state state := ⟨rfl, _, _, _, _, gathered⟩
  have fit := gathered.holds.tracesFit
  have bound := stackTraceBufferSize_small offline
  generalize look : lookup stacktrace (split 0 state.tls.data.stacktraces) = ending at ends
  cases ending with
  | missing =>
    have nonempty := ne_nil_of_missing look
    by_cases full : insufficientRoom (stackTraceBufferSize offline) state.tls.data.stacktraces
        stacktrace = true
    · have fits : (sendEvents now state).tls.data.stacktraces.length + stacktrace.length <
          stackTraceBufferSize offline := by
        have none : (sendEvents now state).tls.data.stacktraces.length = 0 := rfl
        have room : maxFramesPerStackTrace < stackTraceBufferSize offline := by
          cases offline <;> decide
        omega
      obtain ⟨entry, next, added, keeps, reads, same⟩ :=
        (gathered.eventsSent now).stackAdded nonempty clean fits
      refine ⟨entry, next, ?_, keeps, reads, fun _ => same, fun unsent => absurd ⟨look, full⟩ unsent⟩
      simp only [recordStack, if_neg ends, if_pos full, added]
    · have fits : state.tls.data.stacktraces.length + stacktrace.length < stackTraceBufferSize offline := by
        simp only [insufficientRoom, decide_eq_true_eq, ge_iff_le, not_le] at full
        omega
      obtain ⟨entry, next, added, keeps, reads, same⟩ := gathered.stackAdded nonempty clean fits
      refine ⟨entry, next, ?_, keeps, reads, fun sent => absurd sent.2 full, fun _ => same⟩
      simp only [recordStack, if_neg ends, if_neg full, added]
  | found before string =>
    obtain ⟨⟨after, stored⟩, result⟩ := ends
    have unsent : ¬ StackSent offline state.tls.data stacktrace := fun sent => by
      rw [StackSent, look] at sent
      cases sent.1
    have whole : state.tls.data.stacktraces = flat 0 (before ++ string :: after) := by
      rw [← stored, gathered.holds.split_stacktraces, gathered.holds.stacktraces]
    have small : (flat (0 : UInt64) before).length < 65536 := by
      have length := congrArg List.length whole
      rw [flat_append, length_append] at length
      omega
    have cleanString : 0 ∉ string := by
      rw [gathered.holds.split_stacktraces] at stored
      exact (gathered.holds.traceStrings string (stored ▸ List.mem_append_right _ mem_cons_self)).2
    refine ⟨(flat 0 before).length, state, by simp [recordStack, result], kept, ?_,
      fun sent => absurd sent unsent, fun _ => rfl⟩
    rw [toNat_toUInt16 small, whole, read_flat cleanString]
    rfl
  | behind =>
    have unsent : ¬ StackSent offline state.tls.data stacktrace := fun sent => by
      rw [StackSent, look] at sent
      cases sent.1
    have place : (flat (0 : UInt64) (split 0 state.tls.data.stacktraces)).length =
        state.tls.data.stacktraces.length := by
      rw [gathered.holds.split_stacktraces, gathered.holds.stacktraces]
    rw [Lookup.Ends, place] at ends
    refine ⟨state.tls.data.stacktraces.length, state, by simp [recordStack, ends], kept, ?_,
      fun sent => absurd sent unsent, fun _ => rfl⟩
    rw [toNat_toUInt16 (by omega), read_behind (Nat.le_refl _)]
    rfl

theorem Gathered.eventAdded (event : Event) (now : Time) :
    ∃ next, addEvent offline now event state = some next ∧
      (∀ one, state.tls.data.traced event = some one → Keeps offline (traced ++ [one]) state next) ∧
      ∀ stopped whole, decode (stopTracing stopped next) = some whole →
        ∃ one, state.tls.data.traced event = some one ∧ whole = traced ++ [one] := by
  have holds := gathered.holds
  let longer : State := { state with tls.data.events := state.tls.data.events ++ [event] }
  have decodes : longer.tls.data.decode = (state.tls.data.traced event).map fun one => events ++ [one] := by
    have same : longer.tls.data.traced = state.tls.data.traced := rfl
    have earlier := holds.events
    rw [Data.decode] at earlier ⊢
    rw [same, List.mapM_append, earlier]
    cases read : state.tls.data.traced event <;> simp [read]
  have sentDecodes : ∀ stopped, decode (sendEvents stopped longer).sent =
      (state.tls.data.traced event).map fun one => traced ++ [one] := by
    intro stopped
    have snoc := gather_snoc (fun message => message.data.decode) state.sent
      ⟨{ state.tls.header with timeEnd := stopped }, longer.tls.data⟩
    have sent : gather (fun message => message.data.decode) state.sent = some sent :=
      gathered.decoded
    rw [sent, Option.bind_some, decodes] at snoc
    rw [decode, show (sendEvents stopped longer).sent = state.sent ++
      [⟨{ state.tls.header with timeEnd := stopped }, longer.tls.data⟩] from rfl, snoc,
      ← gathered.whole]
    cases state.tls.data.traced event <;> simp
  by_cases full : longer.tls.data.events.length = eventBufferSize offline
  · refine ⟨sendEvents now longer, ?_, ?_, ?_⟩
    · simp only [addEvent, if_pos holds.room]
      exact congrArg some (if_pos full)
    · intro one read
      refine ⟨rfl, [], [], traced ++ [one], [], Holds.empty, ?_, append_nil _⟩
      rw [sentDecodes, read, Option.map_some]
    · intro stopped whole decoded
      have sends := sentDecodes now
      rw [show decode (stopTracing stopped (sendEvents now longer)) =
        decode (sendEvents now longer).sent from rfl, sends] at decoded
      obtain ⟨one, read, rfl⟩ := Option.map_eq_some_iff.mp decoded
      exact ⟨one, read, rfl⟩
  · have length : longer.tls.data.events.length = state.tls.data.events.length + 1 :=
      length_append
    refine ⟨longer, ?_, ?_, ?_⟩
    · simp only [addEvent, if_pos holds.room]
      exact congrArg some (if_neg full)
    · intro one read
      have room := holds.room
      refine ⟨rfl, traces, paths, sent, events ++ [one], ⟨holds.stacktraces, holds.pathnames,
        holds.traceStrings, holds.pathStrings, ?_, holds.tracesFit, holds.pathsFit, ?_⟩,
        gathered.decoded, ?_⟩
      · rw [decodes, read, Option.map_some]
      · omega
      · rw [← List.append_assoc, gathered.whole]
    · intro stopped whole decoded
      have used : longer.tls.data.events.length > 0 := by omega
      rw [stopTracing, if_pos used, sentDecodes] at decoded
      obtain ⟨one, read, rfl⟩ := Option.map_eq_some_iff.mp decoded
      exact ⟨one, read, rfl⟩

end

/-- The searches come to the call stack and to the path name of the event, and both indices
are taken for one message. -/
structure Sound (offline : Bool) (data : Data) (call : Call) : Prop where
  nonempty : call.stacktrace ≠ []
  clean : 0 ∉ call.stacktrace
  positive : call.curpath = call.currentpathname
  path : (lookup call.curpath (split 0 data.pathnames)).result call.curpath = some call.curpath
  stack : ¬ PathSent data call.curpath →
    (lookup call.stacktrace (split 0 data.stacktraces)).result call.stacktrace = some call.stacktrace
  together : ¬ PathSent data call.curpath → StackSent offline data call.stacktrace → call.curpath = []

theorem clean_curpath (call : Call) : 0 ∉ call.curpath := by
  rw [Call.curpath]
  split
  · exact not_mem_nil
  · split
    · exact call.terminated
    · exact not_mem_nil

variable {call : Call}

theorem curpath_eq_nil (apart : call.curpath ≠ call.currentpathname) :
    call.curpath = [] ∧ call.currentpathname ≠ [] := by
  rw [Call.curpath] at apart ⊢
  split at apart
  · rename_i empty
    exact absurd empty.symm apart
  · rename_i first rest path
    split at apart
    · exact absurd rfl apart
    · rename_i negative
      rw [if_neg negative]
      exact ⟨rfl, by simp [path]⟩

theorem short_stacktrace (call : Call) : call.stacktrace.length ≤ maxFramesPerStackTrace := by
  have short := call.short
  rw [Call.stacktrace]
  split
  · exact Nat.zero_le _
  · rename_i callers frames
    rwa [frames] at short

theorem lookup_nil_result {Item : Type} [DecidableEq Item] {stored : List (List Item)}
    (nonempty : ∀ string ∈ stored, string ≠ []) : (lookup [] stored).result [] ≠ some [] := by
  cases stored with
  | nil => simp [lookup, Lookup.result]
  | cons string others =>
    rw [lookup, if_pos nil_prefix]
    exact fun same => nonempty string mem_cons_self (Option.some.inj same)

theorem traced_eq_some {event : Event} {one : Traced} : data.traced event = some one ↔
      read 0 data.stacktraces event.stacktrace.toNat = some one.stacktrace ∧
        data.pathname event.pathindex = some one.pathname := by
  rw [Data.traced]
  constructor
  · intro found
    obtain ⟨trace, readTrace, found⟩ := Option.bind_eq_some_iff.mp found
    obtain ⟨path, readPath, returned⟩ := Option.bind_eq_some_iff.mp found
    obtain rfl := Option.some.inj returned
    exact ⟨readTrace, readPath⟩
  · rintro ⟨readTrace, readPath⟩
    rw [readTrace, readPath]
    rfl

section

variable (gathered : Gathered offline traced state traces paths sent events)
include gathered

theorem Gathered.nest (nesting : Nesting) :
    Gathered offline traced { state with tls.nesting := nesting } traces paths sent events :=
  ⟨gathered.holds, gathered.decoded, gathered.whole⟩

theorem Gathered.callRecorded (outermost : state.tls.nesting.isOutermost = true)
    (clean : 0 ∉ call.stacktrace) (room : PathRoom state.tls.data call.curpath) :
    ∃ next, recordEvent offline call state = some next ∧ (Sound offline state.tls.data call →
        next.tls.nesting = state.tls.nesting.record ∧ ∃ traces paths sent events, Gathered offline
          (traced ++ [⟨call.stacktrace, call.currentpathname⟩]) next traces paths sent events) ∧
      ∀ stopped, decode (stopTracing stopped next) =
          some (traced ++ [⟨call.stacktrace, call.currentpathname⟩]) → Sound offline state.tls.data call := by
  obtain ⟨place, middle, ranPath, ⟨sameNesting, _, _, _, _, middleGathered⟩, readsPath, zero,
    pathSent, pathUnsent⟩ := gathered.pathRecorded (clean_curpath call) room call.pathTime
  have short := short_stacktrace call
  obtain ⟨entry, last, ranStack, ⟨lastNesting, _, _, _, _, lastGathered⟩, readsStack, stackSent,
    stackUnsent⟩ := (middleGathered.nest state.tls.nesting.record).stackRecorded clean short call.stackTime
  obtain ⟨next, added, keeps, reads⟩ := lastGathered.eventAdded
    { call.event with stacktrace := entry.toUInt16, pathindex := place.toUInt16 } call.eventTime
  have same : ∀ pathindex, ¬ StackSent offline middle.tls.data call.stacktrace →
      last.tls.data.pathname pathindex = middle.tls.data.pathname pathindex := by
    intro pathindex unsent
    simp only [Data.pathname, stackUnsent unsent]
  have lost : StackSent offline middle.tls.data call.stacktrace → call.curpath ≠ [] →
      last.tls.data.pathname place.toUInt16 = none := by
    intro sent nonempty
    have positive : place.toUInt16 ≠ 0 := fun isZero => nonempty (zero.mp isZero)
    rw [Data.pathname, if_pos positive, stackSent sent, read_behind]
    rw [List.length_singleton, Nat.one_le_iff_ne_zero]
    exact fun isZero => positive (UInt16.toNat_inj.mp isZero)
  have unnamed : call.curpath = [] → last.tls.data.pathname place.toUInt16 = some [] := by
    intro empty
    rw [Data.pathname, if_neg (not_not.mpr (zero.mpr empty))]
  have emptyLookup : (lookup ([] : List UInt8) (split 0 state.tls.data.pathnames)).result [] = some [] := by
    rw [gathered.holds.split_pathnames, lookup, if_pos nil_prefix]
    rfl
  have afterSent : PathSent state.tls.data call.curpath →
      ¬ StackSent offline middle.tls.data call.stacktrace := by
    rintro sent ⟨-, full⟩
    have room : maxFramesPerStackTrace + 1 < stackTraceBufferSize offline := by
      cases offline <;> decide
    rw [insufficientRoom, pathSent sent] at full
    simp only [length_nil, decide_eq_true_eq] at full
    omega
  refine ⟨next, ?_, ?_, ?_⟩
  · simp only [recordEvent, ranPath, Option.bind_eq_bind, Option.bind_some, outermost]
    simpa [ranStack] using added
  · intro sound
    have one := keeps ⟨call.stacktrace, call.currentpathname⟩ (traced_eq_some.mpr ⟨?_, ?_⟩)
    · exact ⟨one.1.trans lastNesting, one.2⟩
    · rw [readsStack]
      by_cases sent : PathSent state.tls.data call.curpath
      · simp [pathSent sent, split, splitFrom, lookup, sound.nonempty, Lookup.result]
      · simpa only [pathUnsent sent] using sound.stack sent
    · rw [← sound.positive]
      by_cases empty : call.curpath = []
      · rw [empty]
        exact unnamed empty
      · have unsent : ¬ StackSent offline middle.tls.data call.stacktrace := by
          intro sent
          by_cases pathFirst : PathSent state.tls.data call.curpath
          · exact afterSent pathFirst sent
          · refine empty (sound.together pathFirst ?_)
            rwa [StackSent, pathUnsent pathFirst] at sent
        exact (same _ unsent).trans (readsPath.trans sound.path)
  · intro stopped decoded
    obtain ⟨one, read, whole⟩ := reads stopped _ decoded
    obtain rfl : (⟨call.stacktrace, call.currentpathname⟩ : Traced) = one := by
      simpa using whole
    obtain ⟨readStack, readPath⟩ := traced_eq_some.mp read
    rw [readsStack] at readStack
    have positive : call.curpath = call.currentpathname := by
      by_contra apart
      obtain ⟨empty, named⟩ := curpath_eq_nil apart
      rw [unnamed empty] at readPath
      exact named (Option.some.inj readPath).symm
    have notLost : StackSent offline middle.tls.data call.stacktrace → call.curpath = [] := by
      intro sent
      by_contra nonempty
      rw [lost sent nonempty] at readPath
      cases readPath
    refine ⟨?_, clean, positive, ?_, ?_, ?_⟩
    · intro empty
      rw [empty] at readStack
      refine lookup_nil_result ?_ readStack
      rw [middleGathered.holds.split_stacktraces]
      exact fun string member => (middleGathered.holds.traceStrings string member).1
    · by_cases sent : StackSent offline middle.tls.data call.stacktrace
      · rw [notLost sent]
        exact emptyLookup
      · rw [← readsPath, ← same _ sent, positive]
        exact readPath
    · intro unsent
      simpa only [pathUnsent unsent] using readStack
    · intro unsent sent
      refine notLost ?_
      rwa [StackSent, pathUnsent unsent]

theorem Gathered.pathOverflows
    (noRoom : ¬ PathRoom state.tls.data call.curpath) : recordEvent offline call state = none := by
  obtain ⟨missing, long⟩ := Classical.not_imp.mp noRoom
  have ends := gathered.holds.search_path (clean_curpath call)
  rw [← gathered.holds.split_pathnames, missing] at ends
  have positive : 1 ≤ state.tls.data.pathnames.length := by
    simp [gathered.holds.pathnames]
  have full : insufficientRoom pathBufferSize state.tls.data.pathnames call.curpath = true := by
    simp only [insufficientRoom, decide_eq_true_eq]
    omega
  have overflow : ¬ (sendEvents call.pathTime state).tls.data.pathnames.length +
      call.curpath.length < pathBufferSize := by
    have one : (sendEvents call.pathTime state).tls.data.pathnames.length = 1 := rfl
    omega
  have none : recordPath call.pathTime call.curpath state = none := by
    simp only [recordPath, if_neg ends, if_pos full, addPath, add, if_neg overflow]
    rfl
  simp [recordEvent, none]

end

theorem clean_of_decode {whole : List Traced}
    (decoded : decode messages = some whole) : ∀ one ∈ whole, 0 ∉ one.stacktrace := by
  intro one member
  obtain ⟨message, _, more, data, inMore⟩ := mem_of_gather decoded member
  obtain ⟨event, _, read⟩ := mem_of_mapM data one inMore
  exact clean_of_leading (traced_eq_some.mp read).1

end

def SoundAction (offline : Bool) (state : State) : Action → Prop
  | .recordEvent call => PathRoom state.tls.data call.curpath ∧
      (state.tls.nesting.isOutermost = true → Sound offline state.tls.data call)
  | .doTrace _ => True
  | .deferTrace _ => True
  | .startEvent => True

def Relates (offline : Bool) (seen : List Action) (state : State) : Prop :=
  state.tls.nesting = seen.foldl Nesting.after Nesting.start ∧
    ∃ traces paths sent events, Gathered offline (recorded Nesting.start seen) state traces paths sent events

theorem recorded_snoc (seen : List Action) (action : Action) : ∀ nesting,
    recorded nesting (seen ++ [action]) =
      recorded nesting seen ++ recordedBy (seen.foldl Nesting.after nesting) action := by
  induction seen with
  | nil => simp [recorded]
  | cons first rest ih => simp [recorded, ih]

theorem startTracing_relates (offline : Bool) (header : DataHeader) (now : Time) :
    Relates offline [] (startTracing header now) :=
  ⟨rfl, [], [], [], [], Holds.empty, rfl, rfl⟩

theorem step_relates {offline : Bool} {seen : List Action} {state : State} {action : Action}
    (related : Relates offline seen state) (sound : SoundAction offline state action) :
    ∃ next, step offline state action = some next ∧ Relates offline (seen ++ [action]) next := by
  obtain ⟨nests, traces, paths, sent, events, gathered⟩ := related
  simp only [Relates, recorded_snoc, List.foldl_append, List.foldl_cons, List.foldl_nil, ← nests]
  cases action with
  | recordEvent call =>
    obtain ⟨room, soundCall⟩ := sound
    cases outermost : state.tls.nesting.isOutermost with
    | true =>
      obtain ⟨next, ran, keeps, -⟩ :=
        gathered.callRecorded outermost (soundCall outermost).clean room
      obtain ⟨nesting, gatheredNext⟩ := keeps (soundCall outermost)
      exact ⟨next, ran, nesting, by simpa [recordedBy, outermost] using gatheredNext⟩
    | false =>
      obtain ⟨place, middle, ranPath, ⟨-, traces, paths, sent, events, kept⟩, -⟩ :=
        gathered.pathRecorded (clean_curpath call) room call.pathTime
      refine ⟨{ middle with tls.nesting := state.tls.nesting.record }, ?_, rfl, traces, paths,
        sent, events, ?_⟩
      · simp [step, recordEvent, ranPath, outermost]
      · simpa [recordedBy, outermost] using kept.nest _
  | doTrace selected =>
    exact ⟨_, rfl, rfl, traces, paths, sent, events, by simpa [recordedBy] using gathered.nest _⟩
  | deferTrace doTrace =>
    exact ⟨_, rfl, rfl, traces, paths, sent, events, by simpa [recordedBy] using gathered.nest _⟩
  | startEvent =>
    exact ⟨_, rfl, rfl, traces, paths, sent, events, by simpa [recordedBy] using gathered.nest _⟩

theorem step_broken {offline : Bool} {seen : List Action} {state next : State} {action : Action}
    (related : Relates offline seen state) (unsound : ¬ SoundAction offline state action)
    (stepped : step offline state action = some next) (stopped : Time) :
    decode (stopTracing stopped next) ≠ some (recorded Nesting.start (seen ++ [action])) := by
  obtain ⟨nests, traces, paths, sent, events, gathered⟩ := related
  rw [recorded_snoc, ← nests]
  intro decoded
  cases action with
  | recordEvent call =>
    by_cases room : PathRoom state.tls.data call.curpath
    · obtain ⟨outermost, unsoundCall⟩ := Classical.not_imp.mp fun sound => unsound ⟨room, sound⟩
      have one : recordedBy state.tls.nesting (.recordEvent call) =
          [⟨call.stacktrace, call.currentpathname⟩] := if_pos outermost
      rw [one] at decoded
      have clean : 0 ∉ call.stacktrace :=
        clean_of_decode decoded ⟨call.stacktrace, call.currentpathname⟩ (by simp)
      obtain ⟨reached, ran, -, sound⟩ := gathered.callRecorded outermost clean room
      obtain rfl : reached = next := Option.some.inj (ran.symm.trans stepped)
      exact unsoundCall (sound stopped decoded)
    · rw [step, gathered.pathOverflows room] at stepped
      cases stepped
  | doTrace selected => exact unsound trivial
  | deferTrace doTrace => exact unsound trivial
  | startEvent => exact unsound trivial

/-- What is read for the events, wherever tracing is stopped, are their own call stacks and
path names, in their order, if and only if the searches of each call come to them. -/
theorem read_exactly_iff (offline : Bool) (header : DataHeader) (started : Time)
    (actions : List Action) :
    (∀ part, part <+: actions → ∃ state,
      Runs.run (step offline) (startTracing header started) part = some state ∧
        ∀ stopped, decode (stopTracing stopped state) = some (recorded Nesting.start part)) ↔
      Runs.Along (SoundAction offline) (step offline) (startTracing header started) actions := by
  have whole := @Runs.along_iff_prefixes State Action (SoundAction offline) (step offline)
    (fun seen state => ∀ stopped, decode (stopTracing stopped state) = some (recorded Nesting.start seen))
    (Relates offline)
    (fun _ _ related stopped =>
      let ⟨_, _, _, _, _, gathered⟩ := related
      gathered.decode_stopTracing stopped)
    (fun _ _ _ related sound => step_relates related sound)
    (fun _ _ _ _ related unsound stepped all => step_broken related unsound stepped 0 (all 0))
    actions [] _ (startTracing_relates offline header started)
  simpa using whole

def sampleHeader : DataHeader := ⟨0, 1, "host", 7, 7, 0, 0, 0, 0⟩

def sampleCall (function : UInt64) : Call where
  event := ⟨1, 2, 0, 0, 0, 0, Vector.replicate 4 0, 0⟩
  function := function
  currentpathname := []
  terminated := by decide
  fits := by decide
  frames := [8, 32, 48]
  short := by decide
  pathTime := 3
  stackTime := 3
  eventTime := 3

def threeCalls : List Action :=
  [.startEvent, .recordEvent (sampleCall 64), .startEvent, .recordEvent (sampleCall 80),
    .startEvent, .recordEvent (sampleCall 96)]

theorem firstFrame_not_compared : ∃ final, Runs.run (step false) (startTracing sampleHeader 1)
      threeCalls = some final ∧
    decode (stopTracing 4 final) ≠ some (recorded Nesting.start threeCalls) := by
  have noPath : search 0 ([0] : List UInt8) [] 0 0 = (0, 0) := by simp [search]
  have first : search 0 ([] : List UInt64) [64, 32, 48] 0 0 = (0, 0) := by simp [search]
  have second : search 0 ([64, 32, 48, 0] : List UInt64) [80, 32, 48] 0 0 = (4, 1) := by
    simp [search, advance]
  have third : search 0 ([64, 32, 48, 0, 80, 32, 48, 0] : List UInt64) [96, 32, 48] 0 0 = (4, 3) := by
    simp [search, advance]
  have evaluated : (Runs.run (step false) (startTracing sampleHeader 1) threeCalls).map
      (fun final => decode (stopTracing 4 final)) =
        some (some [⟨[64, 32, 48], []⟩, ⟨[80, 32, 48], []⟩, ⟨[80, 32, 48], []⟩]) := by
    simp [threeCalls, sampleCall, Runs.run_cons, step, recordEvent, recordPath, recordStack, addStack,
      add, addEvent, startTracing, Data.empty, Call.curpath, Call.stacktrace, Nesting.start,
      Nesting.after, Nesting.isOutermost, Nesting.record, noPath, first, second, third,
      insufficientRoom, stackTraceBufferSize, blobSizeFactor, eventBufferSize]
    decide +kernel
  obtain ⟨final, ran, decoded⟩ := Option.map_eq_some_iff.mp evaluated
  exact ⟨final, ran, by rw [decoded]; decide⟩

end OpenSpeedShop.Iot
