import OpenSpeedShop.Frontend.MessagePumpCore

/-! The thread table of the front ends, with the callbacks for the output of each thread. -/

namespace OpenSpeedShop.Frontend

open Daemon (ThreadState)
open Instrumentor (connected)

variable {Thread OutputCallback : Type} [DecidableEq Thread]

structure ThreadTable (Thread OutputCallback : Type) where
  dmThreadToState : Thread → Option ThreadState
  dmThreadToCallbacks : Thread → Option (OutputCallback × OutputCallback)

namespace ThreadTable

def empty : ThreadTable Thread OutputCallback := ⟨fun _ => none, fun _ => none⟩

def addThread (thread : Thread) (stdoutCallback stderrCallback : OutputCallback)
    (table : ThreadTable Thread OutputCallback) : Option (ThreadTable Thread OutputCallback) :=
  if (table.dmThreadToState thread).isNone ∧ (table.dmThreadToCallbacks thread).isNone then
    some {
      dmThreadToState := Function.update table.dmThreadToState thread (some .disconnected)
      dmThreadToCallbacks := Function.update table.dmThreadToCallbacks thread
        (some (stdoutCallback, stderrCallback)) }
  else none

def removeThread (thread : Thread) (table : ThreadTable Thread OutputCallback) :
    Option (ThreadTable Thread OutputCallback) :=
  -- Only one of the two maps is looked at.
  if (table.dmThreadToState thread).isNone then none
  else some { table with dmThreadToState := Function.update table.dmThreadToState thread none }

def setThreadState (thread : Thread) (state : ThreadState)
    (table : ThreadTable Thread OutputCallback) : Option (ThreadTable Thread OutputCallback) :=
  if (table.dmThreadToState thread).isNone then none
  else some { table with
    dmThreadToState := Function.update table.dmThreadToState thread (some state) }

/-- The front end over CBTF takes every host for one that has a backend. -/
def setConnecting (thread : Thread) (hasBackend : Bool)
    (table : ThreadTable Thread OutputCallback) :
    Option (ThreadTable Thread OutputCallback × Bool) :=
  match table.dmThreadToState thread with
  | none => none
  | some state =>
    if !connected state && hasBackend then
      (table.setThreadState thread .connecting).map (·, true)
    else some (table, false)

section

variable [Inhabited OutputCallback] (table : ThreadTable Thread OutputCallback) (thread : Thread)

def getStdoutCallback : OutputCallback :=
  match table.dmThreadToCallbacks thread with
  | none => default
  | some callbacks => callbacks.1

def getStderrCallback : OutputCallback :=
  match table.dmThreadToCallbacks thread with
  | none => default
  | some callbacks => callbacks.2

end

inductive Operation (Thread OutputCallback : Type)
  | addThread (thread : Thread) (stdoutCallback stderrCallback : OutputCallback)
  | removeThread (thread : Thread)
  | setThreadState (thread : Thread) (state : ThreadState)
  | setConnecting (thread : Thread) (hasBackend : Bool)

def step (table : ThreadTable Thread OutputCallback) :
    Operation Thread OutputCallback → Option (ThreadTable Thread OutputCallback)
  | .addThread thread stdoutCallback stderrCallback =>
    table.addThread thread stdoutCallback stderrCallback
  | .removeThread thread => table.removeThread thread
  | .setThreadState thread state => table.setThreadState thread state
  | .setConnecting thread hasBackend => (table.setConnecting thread hasBackend).map Prod.fst

/-! What the table is for: the callbacks of the threads that are present. -/

variable [Inhabited OutputCallback] {table next : ThreadTable Thread OutputCallback}
  {operations : List (Operation Thread OutputCallback)}

def register (callbacks : Thread → OutputCallback × OutputCallback) :
    Operation Thread OutputCallback → Thread → OutputCallback × OutputCallback
  | .addThread thread stdoutCallback stderrCallback =>
    Function.update callbacks thread (stdoutCallback, stderrCallback)
  | .removeThread thread => Function.update callbacks thread default
  | .setThreadState _ _ | .setConnecting _ _ => callbacks

/-- The callbacks with which each thread was added, if it was not removed since. -/
def registered (operations : List (Operation Thread OutputCallback)) :
    Thread → OutputCallback × OutputCallback :=
  operations.foldl register fun _ => default

structure Consistent (operations : List (Operation Thread OutputCallback))
    (table : ThreadTable Thread OutputCallback) : Prop where
  keys : ∀ thread, (table.dmThreadToCallbacks thread).isSome = (table.dmThreadToState thread).isSome
  returned : ∀ thread, (table.getStdoutCallback thread, table.getStderrCallback thread) =
    registered operations thread

/-- A thread is added only when it is not present, and removed only when it is. -/
def Legal (table : ThreadTable Thread OutputCallback) : Operation Thread OutputCallback → Prop
  | .addThread thread _ _ => (table.dmThreadToState thread).isNone
  | .removeThread thread => (table.dmThreadToState thread).isSome
  | .setThreadState _ _ | .setConnecting _ _ => True

/-- No thread is removed, and only the states of present threads change. -/
def Harmless (table : ThreadTable Thread OutputCallback) : Operation Thread OutputCallback → Prop
  | .addThread _ _ _ => True
  | .removeThread _ => False
  | .setThreadState thread _ | .setConnecting thread _ => (table.dmThreadToState thread).isSome

omit [Inhabited OutputCallback] in
theorem setThreadState_eq_some {thread : Thread} {state : ThreadState} :
    table.setThreadState thread state = some next ↔ (table.dmThreadToState thread).isSome ∧
      next = ⟨Function.update table.dmThreadToState thread (some state), table.dmThreadToCallbacks⟩ := by
  unfold setThreadState
  cases table.dmThreadToState thread <;> simp [eq_comm]

/-- A change of a state leaves the callbacks and the keys as they are. -/
theorem Consistent.of_update (consistent : Consistent operations table) {thread : Thread}
    (present : (table.dmThreadToState thread).isSome) (state : ThreadState) : Consistent operations
      ⟨Function.update table.dmThreadToState thread (some state), table.dmThreadToCallbacks⟩ := by
  refine ⟨fun other => ?_, consistent.returned⟩
  dsimp only
  rw [consistent.keys]
  by_cases same : other = thread
  · rw [same, present, Function.update_self]
    rfl
  · rw [Function.update_of_ne same]

theorem Consistent.unchanged (consistent : Consistent operations table)
    {operation : Operation Thread OutputCallback}
    (same : ∀ callbacks, register callbacks operation = callbacks) :
    Consistent (operations ++ [operation]) table := by
  refine ⟨consistent.keys, fun thread => ?_⟩
  rw [registered, List.foldl_append, List.foldl_cons, List.foldl_nil, same]
  exact consistent.returned thread

theorem Consistent.step (consistent : Consistent operations table)
    {operation : Operation Thread OutputCallback} (legal : Legal table operation)
    (harmless : Harmless table operation) :
    ∃ next, step table operation = some next ∧ Consistent (operations ++ [operation]) next := by
  cases operation with
  | addThread thread stdoutCallback stderrCallback =>
    have absent : (table.dmThreadToCallbacks thread).isNone := by
      have keys := consistent.keys thread
      simp_all [Legal]
    refine ⟨_, if_pos ⟨legal, absent⟩, fun other => ?_, fun other => ?_⟩
    · by_cases same : other = thread
      · simp [same]
      · simpa [same] using consistent.keys other
    · have before := consistent.returned other
      rw [registered, List.foldl_append]
      by_cases same : other = thread
      · simp [same, register, getStdoutCallback, getStderrCallback]
      · simpa [same, register, registered, getStdoutCallback, getStderrCallback] using before
  | removeThread thread => exact harmless.elim
  | setThreadState thread state =>
    exact ⟨_, setThreadState_eq_some.mpr ⟨harmless, rfl⟩,
      (consistent.of_update harmless state).unchanged fun _ => rfl⟩
  | setConnecting thread hasBackend =>
    obtain ⟨state, present⟩ := Option.isSome_iff_exists.mp harmless
    dsimp only [ThreadTable.step, setConnecting]
    rw [present]
    dsimp only
    split
    · rw [setThreadState_eq_some.mpr ⟨harmless, rfl⟩]
      exact ⟨_, rfl, (consistent.of_update harmless .connecting).unchanged fun _ => rfl⟩
    · exact ⟨_, rfl, consistent.unchanged fun _ => rfl⟩

theorem Consistent.broken (consistent : Consistent operations table)
    {operation : Operation Thread OutputCallback}
    (harmful : ¬ (Legal table operation ∧ Harmless table operation))
    (stepped : ThreadTable.step table operation = some next) :
    ¬ Consistent (operations ++ [operation]) next := by
  intro kept
  cases operation with
  | addThread thread stdoutCallback stderrCallback =>
    have present : ¬ ((table.dmThreadToState thread).isNone ∧
        (table.dmThreadToCallbacks thread).isNone) := fun both => harmful ⟨both.1, trivial⟩
    cases (if_neg present).symm.trans stepped
  | removeThread thread =>
    dsimp only [ThreadTable.step, removeThread] at stepped
    split at stepped
    · cases stepped
    · next present =>
        obtain rfl := Option.some.inj stepped
        -- The callbacks stay where they are.
        have left := (kept.keys thread).symm.trans (consistent.keys thread)
        simp_all
  | setThreadState thread state =>
    exact harmful ⟨trivial, (setThreadState_eq_some.mp stepped).1⟩
  | setConnecting thread hasBackend =>
    have absent : table.dmThreadToState thread = none := by
      simpa [Legal, Harmless] using harmful
    simp [ThreadTable.step, setConnecting, absent] at stepped

/-- In a run of legal operations the maps agree as long as nothing is removed. -/
theorem consistent_iff_harmless (legal : Runs.Along Legal step empty operations) :
    (∀ part, part <+: operations → ∃ next, Runs.run step empty part = some next ∧
      Consistent part next) ↔ Runs.Along Harmless step empty operations := by
  have initial : Consistent [] (empty : ThreadTable Thread OutputCallback) :=
    ⟨fun _ => rfl, fun _ => rfl⟩
  calc
    _ ↔ Runs.Along (fun table operation => Legal table operation ∧ Harmless table operation)
        step empty operations :=
      Runs.along_iff_prefixes Consistent (fun _ _ consistent => consistent)
        (fun _ _ _ consistent sound => consistent.step sound.1 sound.2)
        (fun _ _ _ _ consistent harmful stepped => consistent.broken harmful stepped) initial
    _ ↔ _ := Runs.along_and.trans (and_iff_right legal)

theorem consistent_iff_harmless_added :
    (∀ part, part <+: [Operation.addThread 1 7 8, .setThreadState 1 .running] →
      ∃ next, Runs.run step empty part = some next ∧ Consistent part next) ↔
    Runs.Along Harmless step (empty : ThreadTable Nat Nat) [.addThread 1 7 8, .setThreadState 1 .running] :=
  consistent_iff_harmless ⟨rfl, fun _ _ => ⟨trivial, fun _ _ => trivial⟩⟩

theorem removed_thread_remembered :
    ¬ ∀ part, part <+: [Operation.addThread 1 7 8, .removeThread 1, .addThread 1 5 6] →
      ∃ next, Runs.run step (empty : ThreadTable Nat Nat) part = some next ∧ Consistent part next := by
  intro always
  obtain ⟨next, ran, consistent⟩ := always [.addThread 1 7 8, .removeThread 1] (by simp)
  obtain rfl := Option.some.inj ran
  cases consistent.keys 1

end ThreadTable

end OpenSpeedShop.Frontend
