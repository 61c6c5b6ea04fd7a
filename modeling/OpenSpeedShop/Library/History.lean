import Mathlib.Data.List.Basic
import Mathlib.Order.Lattice

/-!
Histories of dated values. A recording at a time closes the versions that were
still open, and opens versions of its own values.
-/

namespace History

structure Version (Time Value : Type) where
  begins : Time
  ends : Time
  value : Value

variable {Time Value : Type} [LinearOrder Time]

def valuesAt (time : Time) (history : List (Version Time Value)) : List Value :=
  (history.filter fun version => version.begins ≤ time ∧ time < version.ends).map Version.value

def close (top now : Time) (history : List (Version Time Value)) : List (Version Time Value) :=
  history.map fun version => if version.ends = top then { version with ends := now } else version

def opened (top begins : Time) (values : List Value) : List (Version Time Value) :=
  values.map fun value => ⟨begins, top, value⟩

def record (top now : Time) (values : List Value) (history : List (Version Time Value)) :
    List (Version Time Value) :=
  close top now history ++ opened top now values

def ClosedBy (top now : Time) (history : List (Version Time Value)) : Prop :=
  ∀ version ∈ history, version.ends = top ∨ version.ends ≤ now

theorem valuesAt_cons (time : Time) (version : Version Time Value) (rest : List (Version Time Value)) :
    valuesAt time (version :: rest) =
      (if version.begins ≤ time ∧ time < version.ends then [version.value] else []) ++ valuesAt time rest := by
  simp only [valuesAt, List.filter_cons, decide_eq_true_eq]
  split <;> rfl

theorem valuesAt_append (time : Time) (first second : List (Version Time Value)) :
    valuesAt time (first ++ second) = valuesAt time first ++ valuesAt time second := by
  simp [valuesAt]

theorem valuesAt_opened {top begins time : Time} (below : time < top) (values : List Value) :
    valuesAt time (opened top begins values) = if begins ≤ time then values else [] := by
  induction values with
  | nil => simp [valuesAt, opened]
  | cons value rest ih =>
    unfold opened at ih ⊢
    rw [List.map_cons, valuesAt_cons, ih]
    by_cases started : begins ≤ time <;> simp [started, below]

variable {top now time : Time}

theorem valuesAt_close_of_lt (earlier : time < now) (below : now ≤ top)
    (history : List (Version Time Value)) :
    valuesAt time (close top now history) = valuesAt time history := by
  induction history with
  | nil => simp [valuesAt, close]
  | cons version rest ih =>
    unfold close at ih ⊢
    rw [List.map_cons, valuesAt_cons, valuesAt_cons, ih]
    split
    · rename_i still
      have both : time < version.ends := by
        rw [still]
        exact lt_of_lt_of_le earlier below
      simp only [earlier, both, and_true]
    · rfl

variable {history : List (Version Time Value)}

theorem valuesAt_close_of_le (closed : ClosedBy top now history) (later : now ≤ time) :
    valuesAt time (close top now history) = [] := by
  simp only [valuesAt, List.map_eq_nil_iff, List.filter_eq_nil_iff, close, List.mem_map,
    decide_eq_true_eq, not_and, not_lt]
  rintro version ⟨old, member, rfl⟩ -
  split
  · exact later
  · rename_i notOpen
    exact ((closed old member).resolve_left notOpen).trans later

theorem valuesAt_record (closed : ClosedBy top now history) (before : now ≤ top) (below : time < top)
    (values : List Value) : valuesAt time (record top now values history) =
      if now ≤ time then values else valuesAt time history := by
  rw [record, valuesAt_append, valuesAt_opened below]
  split
  · rename_i later
    rw [valuesAt_close_of_le closed later, List.nil_append]
  · rename_i earlier
    rw [valuesAt_close_of_lt (not_le.mp earlier) before, List.append_nil]

theorem ClosedBy.record {top now : Time}
    (closed : ClosedBy top now history) (values : List Value) {later : Time} (order : now ≤ later) :
    ClosedBy top later (record top now values history) := by
  intro version member
  rcases List.mem_append.mp member with old | new
  · obtain ⟨former, present, rfl⟩ := List.mem_map.mp old
    split
    · exact Or.inr order
    · rename_i notOpen
      exact Or.inr (((closed former present).resolve_left notOpen).trans order)
  · obtain ⟨value, -, rfl⟩ := List.mem_map.mp new
    exact Or.inl rfl

def lastAt (initial : List Value) (time : Time) (recordings : List (Time × List Value)) : List Value :=
  ((recordings.filter fun recording => recording.1 ≤ time).getLast?.map Prod.snd).getD initial

theorem lastAt_cons (initial : List Value) (time : Time) (recording : Time × List Value)
    (rest : List (Time × List Value)) : lastAt initial time (recording :: rest) =
      lastAt (if recording.1 ≤ time then recording.2 else initial) time rest := by
  by_cases started : recording.1 ≤ time
  · simp only [lastAt, List.filter_cons, started, decide_true, if_true, List.getLast?_cons]
    cases (rest.filter fun recording => decide (recording.1 ≤ time)).getLast? <;> simp
  · simp [lastAt, started]

variable {recordings : List (Time × List Value)}

theorem lastAt_related {Recording : Type} (when : Recording → Time)
    (Related : Recording → List Value → Prop) {time : Time} {first : Recording}
    {initial : List Value} {asked : List Recording} (relatedFirst : Related first initial)
    (related : List.Forall₂
      (fun recording recorded => recorded.1 = when recording ∧ Related recording recorded.2)
      asked recordings) : Related ((asked.filter fun recording => when recording ≤ time).getLast?.getD first)
      (lastAt initial time recordings) := by
  induction related generalizing first initial with
  | nil => exact relatedFirst
  | @cons recording recorded later recordings here _ ih =>
    rw [lastAt_cons, here.1]
    by_cases started : when recording ≤ time
    · simpa [started, List.getLast?_cons] using ih here.2
    · simpa [started] using ih relatedFirst

theorem valuesAt_foldl_record {top time : Time} (below : time < top)
    (ordered : (recordings.map Prod.fst).Pairwise (· ≤ ·))
    (before : ∀ recording ∈ recordings, recording.1 ≤ top)
    (closed : ∀ recording ∈ recordings, ClosedBy top recording.1 history) : valuesAt time (recordings.foldl
        (fun history recording => record top recording.1 recording.2 history) history) =
      lastAt (valuesAt time history) time recordings := by
  induction recordings generalizing history with
  | nil => simp [lastAt]
  | cons recording rest ih =>
    obtain ⟨first, orderedRest⟩ := List.pairwise_cons.mp ordered
    have closedFirst := closed recording (by simp)
    have closedRest : ∀ other ∈ rest, ClosedBy top other.1 (record top recording.1 recording.2 history) :=
      fun other member => closedFirst.record _ (first _ (List.mem_map_of_mem member))
    rw [List.foldl_cons, ih orderedRest (fun other member => before other (by simp [member]))
      closedRest, valuesAt_record closedFirst (before recording (by simp)) below, lastAt_cons]

def recordFrom (top bottom now : Time) (values : List Value)
    (history : List (Version Time Value)) : List (Version Time Value) :=
  if history.isEmpty then opened top bottom values else record top now values history

theorem recordFrom_eq_record {top bottom now : Time} {values : List Value} (some : history ≠ []) :
    recordFrom top bottom now values history = record top now values history := by
  simp [recordFrom, some]

theorem foldl_recordFrom {top bottom : Time} (recordings : List (Time × List Value)) (some : history ≠ []) :
    recordings.foldl (fun history recording => recordFrom top bottom recording.1 recording.2 history) history =
      recordings.foldl (fun history recording => record top recording.1 recording.2 history) history := by
  induction recordings generalizing history with
  | nil => rfl
  | cons recording rest ih =>
    rw [List.foldl_cons, List.foldl_cons, recordFrom_eq_record some]
    exact ih (by simp [record, close, some])

theorem valuesAt_recordings {top bottom time : Time} (above : bottom ≤ time) (below : time < top)
    {first : Time × List Value} {rest : List (Time × List Value)} (some : first.2 ≠ [])
    (ordered : (rest.map Prod.fst).Pairwise (· ≤ ·)) (before : ∀ recording ∈ rest, recording.1 ≤ top) :
    valuesAt time ((first :: rest).foldl
        (fun history recording => recordFrom top bottom recording.1 recording.2 history) []) =
      lastAt first.2 time rest := by
  have initial : recordFrom top bottom first.1 first.2 [] = opened top bottom first.2 := rfl
  have closed : ∀ recording ∈ rest, ClosedBy top recording.1 (opened top bottom first.2) := by
    intro recording _ version member
    obtain ⟨value, -, rfl⟩ := List.mem_map.mp member
    exact Or.inl rfl
  rw [List.foldl_cons, initial, foldl_recordFrom rest (by simp [opened, some]),
    valuesAt_foldl_record below ordered before closed, valuesAt_opened below, if_pos above]

end History
