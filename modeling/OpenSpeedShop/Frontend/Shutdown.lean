import OpenSpeedShop.Library.Runs

/-!
The end of a session: the daemons, the network, the monitor thread and the caller of
`Frontend::stopMessagePump`, one step after the other.
-/

namespace OpenSpeedShop

namespace Frontend

namespace Shutdown

inductive Message (Blob : Type)
  | performanceData (blob : Blob)
  | readyToShutdown
  | other
deriving DecidableEq

inductive Monitor
  | select
  | receive
  | clearNotification
  | checkExit
  | exited
deriving DecidableEq

inductive Caller
  | outside
  | requested
  | joined
  | waiting (remainingEndpoints : Nat)
  | returned
deriving DecidableEq

variable {Daemon Blob : Type}

/-- Messages of a daemon are on their way until they arrive in the stream, from which both loops
of the front end receive. What was sent and enqueued is kept. -/
structure State (Daemon Blob : Type) where
  monitor : Monitor
  caller : Caller
  requestExit : Bool
  backendsShutdown : Bool
  ready : Daemon → Bool
  inFlight : Daemon → List (Message Blob)
  upstream : List (Daemon × Message Blob)
  notified : Bool
  sent : Daemon → List Blob
  enqueued : List (Daemon × Blob)

def State.start : State Daemon Blob where
  monitor := .select
  caller := .outside
  requestExit := false
  backendsShutdown := false
  ready := fun _ => false
  inFlight := fun _ => []
  upstream := []
  notified := false
  sent := fun _ => []
  enqueued := []

inductive Action (Daemon Blob : Type)
  | sendData (daemon : Daemon) (blob : Blob)
  | sendOther (daemon : Daemon)
  | sendReady (daemon : Daemon)
  | arrive (daemon : Daemon)
  | monitor
  | caller
deriving DecidableEq

variable [DecidableEq Daemon]

namespace State

/-- One step of the monitor thread. The select returns at once when there was a notification,
and otherwise after a second. -/
def stepMonitor (state : State Daemon Blob) : Option (State Daemon Blob) :=
  match state.monitor with
  | .select => some { state with monitor := if state.notified then .receive else .checkExit }
  | .receive =>
    match state.upstream with
    | [] => some { state with monitor := .clearNotification }
    | (daemon, .performanceData blob) :: rest =>
      some { state with upstream := rest, enqueued := state.enqueued ++ [(daemon, blob)] }
    -- the other callbacks, and no callback when the daemon is ready
    | (_, _) :: rest => some { state with upstream := rest }
  | .clearNotification => some { state with notified := false, monitor := .checkExit }
  | .checkExit => some { state with monitor := if state.requestExit then .exited else .select }
  | .exited => none

def stepCaller (daemons : List Daemon) (state : State Daemon Blob) : Option (State Daemon Blob) :=
  match state.caller with
  | .outside => some { state with requestExit := true, caller := .requested }
  | .requested =>
    if state.monitor = .exited then some { state with requestExit := false, caller := .joined }
    else none
  | .joined => some { state with backendsShutdown := true, caller := .waiting daemons.length }
  | .waiting 0 => some { state with caller := .returned }
  | .waiting (remaining + 1) =>
    match state.upstream with
    | [] => some state
    | (_, .readyToShutdown) :: rest =>
      some { state with upstream := rest, caller := .waiting remaining }
    | (_, _) :: rest => some { state with upstream := rest }
  | .returned => none

def push (daemon : Daemon) (message : Message Blob) (state : State Daemon Blob) : State Daemon Blob :=
  { state with inFlight :=
      Function.update state.inFlight daemon (state.inFlight daemon ++ [message]) }

def step (daemons : List Daemon) (state : State Daemon Blob) : Action Daemon Blob → Option (State Daemon Blob)
  | .sendData daemon blob =>
    if daemon ∈ daemons ∧ state.ready daemon = false then
      some { state.push daemon (.performanceData blob) with
        sent := Function.update state.sent daemon (state.sent daemon ++ [blob]) }
    else none
  | .sendOther daemon =>
    if daemon ∈ daemons then some (state.push daemon .other) else none
  | .sendReady daemon =>
    if daemon ∈ daemons ∧ state.ready daemon = false ∧ state.backendsShutdown = true then
      some { state.push daemon .readyToShutdown with
        ready := Function.update state.ready daemon true }
    else none
  | .arrive daemon =>
    match state.inFlight daemon with
    | [] => none
    | message :: rest => some { state with
        inFlight := Function.update state.inFlight daemon rest
        upstream := state.upstream ++ [(daemon, message)]
        notified := true }
  | .monitor => state.stepMonitor
  | .caller => state.stepCaller daemons

end State

end Shutdown

end Frontend

/-!
Once the monitor thread has left its loop nothing is enqueued any more: the loop that waits
for the daemons only counts those that are ready. What is then still on its way is lost.
-/

namespace Frontend

namespace Shutdown

variable {Daemon Blob : Type}

def Message.data : Message Blob → Option Blob
  | .performanceData blob => some blob
  | .readyToShutdown | .other => none

namespace State

variable [DecidableEq Daemon]

def arrived (daemon : Daemon) (upstream : List (Daemon × Message Blob)) : List Blob :=
  (upstream.filter fun entry => entry.1 = daemon).filterMap fun entry => entry.2.data

def outstanding (state : State Daemon Blob) (daemon : Daemon) : List Blob :=
  arrived daemon state.upstream ++ (state.inFlight daemon).filterMap Message.data

def enqueuedBy (state : State Daemon Blob) (daemon : Daemon) : List Blob :=
  (state.enqueued.filter fun entry => entry.1 = daemon).map Prod.snd

def Complete (state : State Daemon Blob) : Prop :=
  ∀ daemon, state.enqueuedBy daemon = state.sent daemon

def Safe (state : State Daemon Blob) : Action Daemon Blob → Prop
  | .monitor => state.monitor = .checkExit → state.requestExit = true → ∀ daemon, state.outstanding daemon = []
  | .sendData _ _ => state.monitor ≠ .exited
  | .sendOther _ | .sendReady _ | .arrive _ | .caller => True

@[simp] theorem arrived_nil (daemon : Daemon) : arrived daemon ([] : List (Daemon × Message Blob)) = [] := rfl

theorem arrived_cons (daemon other : Daemon) (message : Message Blob)
    (rest : List (Daemon × Message Blob)) : arrived daemon ((other, message) :: rest) =
      (if other = daemon then message.data.toList else []) ++ arrived daemon rest := by
  unfold arrived
  rw [List.filter_cons]
  by_cases same : other = daemon
  · simp only [same, decide_true, if_true, List.filterMap_cons]
    cases message.data <;> rfl
  · simp [same]

theorem arrived_append (daemon : Daemon) (first second : List (Daemon × Message Blob)) :
    arrived daemon (first ++ second) = arrived daemon first ++ arrived daemon second := by
  simp [arrived]

theorem filterMap_singleton (message : Message Blob) :
    [message].filterMap Message.data = message.data.toList := by
  cases found : message.data <;> simp [found]

theorem outstanding_push (state : State Daemon Blob) (daemon other : Daemon) (message : Message Blob) :
    (state.push daemon message).outstanding other =
      state.outstanding other ++ if other = daemon then message.data.toList else [] := by
  unfold outstanding push
  by_cases same : other = daemon
  · subst same
    simp [filterMap_singleton]
  · simp [same]

theorem outstanding_push_of_none (state : State Daemon Blob) (daemon other : Daemon)
    {message : Message Blob} (noData : message.data = none) :
    (state.push daemon message).outstanding other = state.outstanding other := by
  rw [outstanding_push, noData]
  simp

theorem outstanding_arrive {state : State Daemon Blob} {daemon : Daemon} {message : Message Blob}
    {rest : List (Message Blob)} (next : state.inFlight daemon = message :: rest) (other : Daemon) :
    arrived other (state.upstream ++ [(daemon, message)]) ++
        (Function.update state.inFlight daemon rest other).filterMap Message.data =
      state.outstanding other := by
  unfold outstanding
  rw [arrived_append, arrived_cons, arrived_nil, List.append_nil, List.append_assoc]
  congr 1
  by_cases same : other = daemon
  · subst same
    rw [if_pos rfl, Function.update_self, next, List.filterMap_cons]
    cases message.data <;> rfl
  · rw [if_neg (Ne.symm same), Function.update_of_ne same, List.nil_append]

structure Healthy (state : State Daemon Blob) : Prop where
  accounted : ∀ daemon, state.sent daemon = state.enqueuedBy daemon ++ state.outstanding daemon
  early : state.monitor ≠ .exited → state.caller = .outside ∨ state.caller = .requested
  empty : state.monitor = .exited → ∀ daemon, state.outstanding daemon = []

def Broken (state : State Daemon Blob) : Prop :=
  state.monitor = .exited ∧ ∃ daemon, (state.enqueuedBy daemon).length < (state.sent daemon).length

theorem healthy_start : Healthy (start : State Daemon Blob) where
  accounted := fun _ => rfl
  early := fun _ => Or.inl rfl
  empty := fun _ _ => rfl

variable {state next : State Daemon Blob}

theorem Healthy.of_same (healthy : Healthy state)
    (sent : next.sent = state.sent) (enqueued : next.enqueued = state.enqueued)
    (outstanding : ∀ daemon, next.outstanding daemon = state.outstanding daemon)
    (monitor : next.monitor = state.monitor) (caller : next.caller = state.caller) : Healthy next where
  accounted := by
    intro daemon
    have same : next.enqueuedBy daemon = state.enqueuedBy daemon := by
      rw [enqueuedBy, enqueued]
      rfl
    rw [sent, same, outstanding]
    exact healthy.accounted daemon
  early := by
    rw [monitor, caller]
    exact healthy.early
  empty := by
    intro exited daemon
    rw [outstanding]
    exact healthy.empty (monitor ▸ exited) daemon

theorem Healthy.monitor (healthy : Healthy state)
    (safe : state.Safe .monitor) (stepped : state.stepMonitor = some next) : Healthy next := by
  unfold stepMonitor at stepped
  split at stepped
  · rename_i place
    have early := healthy.early (by simp [place])
    cases stepped
    exact ⟨healthy.accounted, fun _ => early, by dsimp only; split <;> simp⟩
  · rename_i place
    have early := healthy.early (by simp [place])
    split at stepped
    · cases stepped
      exact ⟨healthy.accounted, fun _ => early, by simp⟩
    · rename_i daemon blob rest received
      cases stepped
      refine ⟨fun other => ?_, fun _ => early, by simp [place]⟩
      have before := healthy.accounted other
      simp only [outstanding, received, arrived_cons, Message.data, Option.toList_some] at before
      simp only [outstanding, enqueuedBy, List.filter_append, List.map_append] at before ⊢
      rw [before]
      by_cases same : daemon = other <;> simp [same]
    · rename_i daemon message rest isData received
      cases stepped
      refine healthy.of_same rfl rfl (fun other => ?_) rfl rfl
      have nothing : message.data = none := by
        cases message with
        | performanceData blob => exact absurd rfl (isData blob)
        | readyToShutdown => rfl
        | other => rfl
      simp [outstanding, received, arrived_cons, nothing]
  · rename_i place
    have early := healthy.early (by simp [place])
    cases stepped
    exact ⟨healthy.accounted, fun _ => early, by simp⟩
  · rename_i place
    have early := healthy.early (by simp [place])
    cases stepped
    refine ⟨healthy.accounted, fun _ => early, ?_⟩
    intro exited
    by_cases requested : state.requestExit = true
    · exact safe place requested
    · simp [requested] at exited
  · cases stepped

theorem Healthy.drop (healthy : Healthy state)
    (exited : state.monitor = .exited) {entry : Daemon × Message Blob}
    {rest : List (Daemon × Message Blob)} (received : state.upstream = entry :: rest)
    (upstream : next.upstream = rest) (inFlight : next.inFlight = state.inFlight)
    (sent : next.sent = state.sent) (enqueued : next.enqueued = state.enqueued)
    (monitor : next.monitor = state.monitor) : Healthy next := by
  have nothing : ∀ daemon, next.outstanding daemon = [] := by
    intro daemon
    have before := healthy.empty exited daemon
    obtain ⟨other, message⟩ := entry
    simp only [outstanding, received, arrived_cons, List.append_eq_nil_iff] at before
    simp only [outstanding, upstream, inFlight, List.append_eq_nil_iff]
    exact ⟨before.1.2, before.2⟩
  refine ⟨fun daemon => ?_, fun running => absurd (monitor.trans exited) running, fun _ => nothing⟩
  have before := healthy.accounted daemon
  have same : next.enqueuedBy daemon = state.enqueuedBy daemon := by
    rw [enqueuedBy, enqueued]
    rfl
  rw [healthy.empty exited daemon] at before
  rw [sent, same, nothing]
  exact before

variable {daemons : List Daemon}

theorem Healthy.caller (healthy : Healthy state)
    (stepped : state.stepCaller daemons = some next) : Healthy next := by
  have exitedAfter : state.caller ≠ .outside → state.caller ≠ .requested → state.monitor = .exited := by
    intro inside later
    by_contra running
    exact (healthy.early running).elim inside later
  unfold stepCaller at stepped
  split at stepped
  · cases stepped
    exact ⟨healthy.accounted, fun _ => Or.inr rfl, healthy.empty⟩
  · split at stepped
    · rename_i exited
      cases stepped
      exact ⟨healthy.accounted, fun running => absurd exited running, healthy.empty⟩
    · cases stepped
  · rename_i place
    have exited := exitedAfter (by simp [place]) (by simp [place])
    cases stepped
    exact ⟨healthy.accounted, fun running => absurd exited running, healthy.empty⟩
  · rename_i place
    have exited := exitedAfter (by simp [place]) (by simp [place])
    cases stepped
    exact ⟨healthy.accounted, fun running => absurd exited running, healthy.empty⟩
  · rename_i remaining place
    have exited := exitedAfter (by simp [place]) (by simp [place])
    split at stepped
    · cases stepped
      exact healthy
    · rename_i received
      cases stepped
      exact healthy.drop exited received rfl rfl rfl rfl rfl
    · rename_i received
      cases stepped
      exact healthy.drop exited received rfl rfl rfl rfl rfl
  · cases stepped

variable {action : Action Daemon Blob}

theorem Healthy.step (healthy : Healthy state)
    (safe : state.Safe action) (stepped : state.step daemons action = some next) : Healthy next := by
  cases action with
  | sendData daemon blob =>
    rw [State.step] at stepped
    split at stepped
    · cases stepped
      refine ⟨fun other => ?_, healthy.early, fun exited => absurd exited safe⟩
      have pushed := state.outstanding_push daemon other (.performanceData blob)
      have before := healthy.accounted other
      change Function.update state.sent daemon (state.sent daemon ++ [blob]) other =
        state.enqueuedBy other ++ (state.push daemon (.performanceData blob)).outstanding other
      rw [pushed, ← List.append_assoc, ← before]
      by_cases same : other = daemon
      · subst same
        simp [Message.data]
      · simp [same]
    · cases stepped
  | sendOther daemon =>
    rw [State.step] at stepped
    split at stepped
    · cases stepped
      exact healthy.of_same rfl rfl (fun other => outstanding_push_of_none _ _ _ rfl) rfl rfl
    · cases stepped
  | sendReady daemon =>
    rw [State.step] at stepped
    split at stepped
    · cases stepped
      refine healthy.of_same rfl rfl (fun other => ?_) rfl rfl
      exact state.outstanding_push_of_none daemon other rfl
    · cases stepped
  | arrive daemon =>
    rw [State.step] at stepped
    split at stepped
    · cases stepped
    · rename_i message rest next
      cases stepped
      exact healthy.of_same rfl rfl (fun other => outstanding_arrive next other) rfl rfl
  | monitor => exact healthy.monitor safe stepped
  | caller => exact healthy.caller stepped

omit [DecidableEq Daemon] in
theorem stepCaller_keeps (stepped : state.stepCaller daemons = some next) :
    next.monitor = state.monitor ∧ next.enqueued = state.enqueued ∧ next.sent = state.sent := by
  unfold stepCaller at stepped
  split at stepped
  · cases stepped
    exact ⟨rfl, rfl, rfl⟩
  · split at stepped
    · cases stepped
      exact ⟨rfl, rfl, rfl⟩
    · cases stepped
  · cases stepped
    exact ⟨rfl, rfl, rfl⟩
  · cases stepped
    exact ⟨rfl, rfl, rfl⟩
  · split at stepped
    · cases stepped
      exact ⟨rfl, rfl, rfl⟩
    · cases stepped
      exact ⟨rfl, rfl, rfl⟩
    · cases stepped
      exact ⟨rfl, rfl, rfl⟩
  · cases stepped

theorem step_exited (exited : state.monitor = .exited) (stepped : state.step daemons action = some next) :
    next.monitor = .exited ∧ next.enqueued = state.enqueued ∧
      ∀ daemon, (state.sent daemon).length ≤ (next.sent daemon).length := by
  cases action with
  | sendData daemon blob =>
    rw [State.step] at stepped
    split at stepped
    · cases stepped
      refine ⟨exited, rfl, fun other => ?_⟩
      by_cases same : other = daemon
      · subst same
        simp
      · simp [same]
    · cases stepped
  | sendOther daemon =>
    rw [State.step] at stepped
    split at stepped
    · cases stepped
      exact ⟨exited, rfl, fun _ => Nat.le_refl _⟩
    · cases stepped
  | sendReady daemon =>
    rw [State.step] at stepped
    split at stepped
    · cases stepped
      exact ⟨exited, rfl, fun _ => Nat.le_refl _⟩
    · cases stepped
  | arrive daemon =>
    rw [State.step] at stepped
    split at stepped
    · cases stepped
    · cases stepped
      exact ⟨exited, rfl, fun _ => Nat.le_refl _⟩
  | monitor =>
    rw [State.step, stepMonitor, exited] at stepped
    cases stepped
  | caller =>
    obtain ⟨monitor, enqueued, sent⟩ := stepCaller_keeps stepped
    rw [monitor, enqueued, sent]
    exact ⟨exited, rfl, fun _ => Nat.le_refl _⟩

theorem Broken.step (broken : Broken state)
    (stepped : state.step daemons action = some next) : Broken next := by
  obtain ⟨exited, daemon, fewer⟩ := broken
  obtain ⟨still, enqueued, grows⟩ := step_exited exited stepped
  refine ⟨still, daemon, ?_⟩
  rw [enqueuedBy, enqueued]
  exact Nat.lt_of_lt_of_le fewer (grows daemon)

theorem Healthy.breaks (healthy : Healthy state) (unsafely : ¬ state.Safe action)
    (stepped : state.step daemons action = some next) : Broken next := by
  cases action with
  | sendData daemon blob =>
    have exited : state.monitor = .exited := not_not.mp unsafely
    have before := healthy.accounted daemon
    rw [healthy.empty exited daemon, List.append_nil] at before
    rw [State.step] at stepped
    split at stepped
    · cases stepped
      refine ⟨exited, daemon, ?_⟩
      change (state.enqueuedBy daemon).length <
        (Function.update state.sent daemon (state.sent daemon ++ [blob]) daemon).length
      rw [Function.update_self, before, List.length_append, List.length_singleton]
      omega
    · cases stepped
  | monitor =>
    have unmet : ¬ (state.monitor = .checkExit → state.requestExit = true →
        ∀ daemon, state.outstanding daemon = []) := unsafely
    simp only [Classical.not_imp, not_forall] at unmet
    obtain ⟨place, requested, daemon, left⟩ := unmet
    rw [State.step, stepMonitor, place] at stepped
    cases stepped
    refine ⟨by simp [requested], daemon, ?_⟩
    change (state.enqueuedBy daemon).length < (state.sent daemon).length
    have lost := List.length_pos_iff.mpr left
    rw [healthy.accounted daemon, List.length_append]
    omega
  | sendOther daemon => exact absurd trivial unsafely
  | sendReady daemon => exact absurd trivial unsafely
  | arrive daemon => exact absurd trivial unsafely
  | caller => exact absurd trivial unsafely

/-- In a run to the end of `stopMessagePump` all data is enqueued exactly when the monitor
thread left with nothing on its way and nothing was sent after that. -/
theorem complete_iff_safe {daemons : List Daemon} {actions : List (Action Daemon Blob)}
    {final : State Daemon Blob} (ran : Runs.run (State.step daemons) start actions = some final)
    (returned : final.caller = .returned) :
    Complete final ↔ Runs.Along Safe (State.step daemons) start actions := by
  rcases @Runs.along_or_broken _ _ Safe (State.step daemons) Healthy Broken
    (fun _ _ _ healthy safe stepped => healthy.step safe stepped)
    (fun _ _ _ healthy unmet stepped => healthy.breaks unmet stepped)
    (fun _ _ _ broken stepped => broken.step stepped) actions start final healthy_start ran with
    ⟨along, healthy⟩ | ⟨notAlong, exited, daemon, fewer⟩
  · refine ⟨fun _ => along, fun _ daemon => ?_⟩
    have exited : final.monitor = .exited := by
      by_contra running
      rcases healthy.early running with outside | requested
      · rw [outside] at returned
        cases returned
      · rw [requested] at returned
        cases returned
    rw [healthy.accounted daemon, healthy.empty exited daemon, List.append_nil]
  · refine ⟨fun complete => ?_, fun along => absurd along notAlong⟩
    rw [complete daemon] at fewer
    exact absurd fewer (Nat.lt_irrefl _)

def dataInTime : List (Action Nat Nat) :=
  [.sendData 0 7, .arrive 0, .monitor, .monitor, .monitor, .caller, .monitor, .monitor, .caller,
    .caller, .sendReady 0, .arrive 0, .caller, .caller]

theorem complete_iff_safe_dataInTime :
    ∃ final, Runs.run (State.step [0]) start dataInTime = some final ∧
      (Complete final ↔ Runs.Along Safe (State.step [0]) start dataInTime) :=
  ⟨_, rfl, complete_iff_safe rfl rfl⟩

def lastData : List (Action Nat Nat) :=
  [.caller, .monitor, .monitor, .caller, .caller, .sendData 0 7, .sendReady 0, .arrive 0,
    .arrive 0, .caller, .caller, .caller]

theorem lastData_lost :
    ¬ ∀ final, Runs.run (State.step [0]) (start : State Nat Nat) lastData = some final →
      final.caller = .returned → Complete final := by
  intro claimed
  have complete := claimed _ rfl rfl 0
  exact absurd complete (by decide)

end State

end Shutdown

end Frontend

end OpenSpeedShop
