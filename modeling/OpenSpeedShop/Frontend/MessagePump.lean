import OpenSpeedShop.Frontend.MessagePumpCore
import OpenSpeedShop.Library.Fallible

/-!
The flag that says that the pump is running is never reset, so that the pump works until
the last thread is released for the first time.
-/

namespace OpenSpeedShop.Frontend

open Fallible (Ends)
open EntryMap (lookup)
open Daemon (ThreadState)
open Fallible (ok_bind error_bind)

def Failure.OfCaller (failure : Failure) : Prop :=
  failure = .threadTable ∨ failure = .precondition

namespace Instrumentor

/-- The flag tells whether the pump is running with all its callbacks, no callback is
registered twice, each stop followed a start, and all requests had a running pump. -/
structure Good (instrumentor : Instrumentor) : Prop where
  initialized : instrumentor.pump.isMRNetInitialized = true ↔
    instrumentor.pump.monitorRunning = true ∧ ∀ pair ∈ registrations, pair ∈ instrumentor.pump.callbacks
  once : instrumentor.pump.callbacks.Nodup
  balanced : instrumentor.pump.starts = instrumentor.pump.stops + if instrumentor.pump.monitorRunning then 1 else 0
  requested : ∀ request ∈ instrumentor.requests, request.2 = true

structure Running (instrumentor : Instrumentor) : Prop where
  initialized : instrumentor.pump.isMRNetInitialized = true
  monitor : instrumentor.pump.monitorRunning = true
  network : ∃ endPoints, instrumentor.pump.theNetwork = .live endPoints
  callbacks : instrumentor.pump.callbacks = registrations
  balanced : instrumentor.pump.starts = instrumentor.pump.stops + 1
  requested : ∀ request ∈ instrumentor.requests, request.2 = true

structure Idle (instrumentor : Instrumentor) : Prop where
  initialized : instrumentor.pump.isMRNetInitialized = false
  monitor : instrumentor.pump.monitorRunning = false
  callbacks : instrumentor.pump.callbacks = [] ∨ instrumentor.pump.callbacks = registrations
  balanced : instrumentor.pump.starts = instrumentor.pump.stops
  requested : ∀ request ∈ instrumentor.requests, request.2 = true
  unconnected : ∀ entry ∈ instrumentor.dmThreadToState, connected entry.2 = false

theorem registrations_nodup : registrations.Nodup := by
  decide

variable {self : Instrumentor}

theorem Running.good (running : Running self) : Good self where
  initialized := by
    rw [running.initialized, running.monitor, running.callbacks]
    exact ⟨fun _ => ⟨rfl, fun _ member => member⟩, fun _ => rfl⟩
  once := by
    rw [running.callbacks]
    exact registrations_nodup
  balanced := by
    rw [running.monitor]
    exact running.balanced
  requested := running.requested

theorem Idle.good (idle : Idle self) : Good self where
  initialized := by
    rw [idle.initialized, idle.monitor]
    simp
  once := by
    rcases idle.callbacks with none | all
    · rw [none]
      exact List.nodup_nil
    · rw [all]
      exact registrations_nodup
  balanced := by
    rw [idle.monitor]
    exact idle.balanced
  requested := idle.requested

theorem Running.of_same {self other : Instrumentor} (running : Running self)
    (pump : other.pump = self.pump) (requests : other.requests = self.requests) : Running other := by
  constructor
  · exact pump ▸ running.initialized
  · exact pump ▸ running.monitor
  · exact pump ▸ running.network
  · exact pump ▸ running.callbacks
  · exact pump ▸ running.balanced
  · exact requests ▸ running.requested

theorem Running.addThread (running : Running self) (thread : Thread) :
    Ends Failure.OfCaller Running (self.addThread thread) := by
  unfold Instrumentor.addThread
  split
  · exact running.of_same rfl rfl
  · exact Or.inl rfl

theorem Idle.addThread (idle : Idle self) (thread : Thread) :
    Ends Failure.OfCaller Idle (self.addThread thread) := by
  unfold Instrumentor.addThread
  split
  · refine ⟨idle.initialized, idle.monitor, idle.callbacks, idle.balanced, idle.requested, ?_⟩
    intro entry member
    rcases List.mem_append.mp member with old | new
    · exact idle.unconnected entry old
    · obtain rfl := List.mem_singleton.mp new
      rfl
  · exact Or.inl rfl

theorem Running.removeThread (running : Running self) (thread : Thread) :
    Ends Failure.OfCaller Running (self.removeThread thread) := by
  unfold Instrumentor.removeThread
  split
  · exact Or.inl rfl
  · exact running.of_same rfl rfl

theorem Idle.removeThread (idle : Idle self) (thread : Thread) :
    Ends Failure.OfCaller Idle (self.removeThread thread) := by
  unfold Instrumentor.removeThread
  split
  · exact Or.inl rfl
  · exact ⟨idle.initialized, idle.monitor, idle.callbacks, idle.balanced, idle.requested,
      fun entry member => idle.unconnected entry (List.mem_filter.mp member).1⟩

section

variable (running : Running self)
include running

theorem Running.setThreadState (state : ThreadState) (thread : Thread) :
    Ends Failure.OfCaller Running (self.setThreadState state thread) := by
  unfold Instrumentor.setThreadState
  split
  · exact Or.inl rfl
  · exact running.of_same rfl rfl

theorem Running.hasBackend (getCanonicalName : String → String) (host : String) :
    Ends Failure.OfCaller (fun _ => True) (self.pump.hasBackend getCanonicalName host) := by
  obtain ⟨endPoints, live⟩ := running.network
  unfold MessagePump.hasBackend
  rw [live]
  trivial

theorem Running.sendToBackends (request : Request) :
    Ends Failure.OfCaller Running (self.sendToBackends request) := by
  obtain ⟨endPoints, live⟩ := running.network
  unfold Instrumentor.sendToBackends
  rw [live]
  refine ⟨running.initialized, running.monitor, running.network, running.callbacks, running.balanced, ?_⟩
  intro other member
  rcases List.mem_append.mp member with old | new
  · exact running.requested other old
  · obtain rfl := List.mem_singleton.mp new
    exact running.monitor

theorem Running.detach (thread : Thread) :
    ∃ next, self.detach thread = .ok next ∧ Running next ∧ next.dmThreadToState = self.dmThreadToState := by
  unfold Instrumentor.detach
  split
  · obtain ⟨endPoints, live⟩ := running.network
    have kept := running.sendToBackends (.detachFromThreads [thread])
    unfold Instrumentor.sendToBackends at kept ⊢
    rw [live] at kept ⊢
    exact ⟨_, rfl, kept, rfl⟩
  · exact ⟨self, rfl, running, rfl⟩

theorem Running.setConnecting (getCanonicalName : String → String) (thread : Thread) :
    Ends Failure.OfCaller (fun result => Running result.1) (self.setConnecting getCanonicalName thread) := by
  unfold Instrumentor.setConnecting
  split
  · exact Or.inl rfl
  · refine (running.hasBackend getCanonicalName thread.host).bind fun hasBackend _ => ?_
    split
    · exact (running.setThreadState .connecting thread).bind fun next kept => kept
    · exact running

theorem Running.validateThreads (getCanonicalName : String → String) (threads : List Thread) :
    Ends Failure.OfCaller (fun _ => True) (self.validateThreads getCanonicalName threads) := by
  induction threads with
  | nil => trivial
  | cons thread rest ih =>
    refine (running.hasBackend getCanonicalName thread.host).bind fun hasBackend _ => ?_
    split
    · trivial
    · exact ih

end

theorem register_all : registrations.foldlM MessagePump.addCallback [] = .ok registrations := by
  decide

theorem register_again :
    registrations.foldlM MessagePump.addCallback registrations = .error .callbackTable := by
  decide

theorem unregister_all : registrations.foldlM MessagePump.removeCallback registrations = .ok [] := by
  decide

theorem Running.initializeMRNet (running : Running self)
    (network : Option (List String)) : self.pump.initializeMRNet network = .ok (self.pump, false) := by
  rw [MessagePump.initializeMRNet, if_pos running.initialized]

theorem Idle.initializeMRNet (idle : Idle self)
    (unregistered : self.pump.callbacks = []) (network : Option (List String)) :
    ∃ pump thrown, self.pump.initializeMRNet network = .ok (pump, thrown) ∧
      if thrown then Idle { self with pump := pump } else Running { self with pump := pump } := by
  unfold MessagePump.initializeMRNet
  rw [if_neg (by simp [idle.initialized]), unregistered, register_all]
  cases network with
  | none =>
    refine ⟨_, true, rfl, ?_⟩
    exact ⟨idle.initialized, idle.monitor, Or.inr rfl, idle.balanced, idle.requested, idle.unconnected⟩
  | some endPoints =>
    refine ⟨_, false, rfl, ?_⟩
    exact ⟨rfl, rfl, ⟨endPoints, rfl⟩, rfl, congrArg (· + 1) idle.balanced, idle.requested⟩

theorem Idle.initializeMRNet_again (idle : Idle self)
    (registered : self.pump.callbacks = registrations) (network : Option (List String)) :
    self.pump.initializeMRNet network = .error .callbackTable := by
  rw [MessagePump.initializeMRNet, if_neg (by simp [idle.initialized]), registered, register_again]
  rfl

theorem Running.finalizeMRNet (running : Running self) :
    ∃ pump, self.pump.finalizeMRNet = .ok pump ∧ pump.isMRNetInitialized = true ∧
      pump.monitorRunning = false := by
  unfold MessagePump.finalizeMRNet MessagePump.stopMessagePump
  rw [if_neg (by simp [running.initialized]), if_pos running.monitor]
  simp only [ok_bind, running.callbacks, unregister_all]
  exact ⟨_, rfl, rfl, rfl⟩

section

variable {getCanonicalName : String → String}

variable {self : Instrumentor}

theorem Running.addToAttach_all (running : Running self) (threads : List Thread) (toAttach : List Thread) :
    Ends Failure.OfCaller (fun found => Running found.1)
      (threads.foldlM (addToAttach getCanonicalName) (self, toAttach)) := by
  refine Ends.foldlM (fun found kept thread _ => ?_) running
  exact (Running.setConnecting kept getCanonicalName thread).bind fun _ still => still

theorem Running.connect (running : Running self) (threads : List Thread) : Ends Failure.OfCaller Running (do
      let (self, threadsToAttach) ← threads.foldlM (addToAttach getCanonicalName) (self, [])
      if threadsToAttach ≠ [] then self.sendToBackends (.attachToThreads threadsToAttach)
      else return self) := by
  refine (running.addToAttach_all threads []).bind fun found kept => ?_
  dsimp only
  split
  · exact Running.sendToBackends kept _
  · exact kept

theorem Running.createProcess (running : Running self) (thread : Thread) (command : String) :
    Ends Failure.OfCaller Running (do
      let self ← self.addThread thread
      let (self, _) ← self.setConnecting getCanonicalName thread
      self.sendToBackends (.createProcess thread command)) := by
  refine (running.addThread thread).bind fun added kept => ?_
  refine (Running.setConnecting kept getCanonicalName thread).bind fun connecting still => ?_
  exact Running.sendToBackends still _

/-- A call of the instrumentor, or a message, fails only for its threads and leaves the
instrumentor in order. -/
def Call.Kept (getCanonicalName : String → String) (self : Instrumentor) (call : Call) : Prop :=
  Ends Failure.OfCaller Good (call.step getCanonicalName self)

def Call.Safe (self : Instrumentor) : Call → Prop
  | .create _ _ _ => self.pump.isMRNetInitialized = true ∨ self.pump.callbacks = []
  | .changeState _ state _ => state = .connecting →
      self.pump.isMRNetInitialized = true ∨ self.pump.callbacks = []
  | .release thread => self.pump.isMRNetInitialized = true →
      lookup thread self.dmThreadToState ≠ none → ∃ entry ∈ self.dmThreadToState, entry.1 ≠ thread
  | .retain _ | .threadsStateChanged _ _ => True

def Valid (self : Instrumentor) : Prop := Running self ∨ Idle self

theorem Valid.good (valid : Valid self) : Good self := by
  rcases valid with running | idle
  · exact running.good
  · exact idle.good

theorem Idle.isConnected (idle : Idle self) (thread : Thread) : self.isConnected thread = false := by
  unfold Instrumentor.isConnected
  cases found : lookup thread self.dmThreadToState with
  | none => rfl
  | some state =>
    obtain ⟨entry, search, rfl⟩ := Option.map_eq_some_iff.mp found
    exact idle.unconnected entry (List.mem_of_find?_eq_some search)

theorem removeThread_pump {self next : Instrumentor} {thread : Thread}
    (removed : self.removeThread thread = .ok next) :
    lookup thread self.dmThreadToState ≠ none ∧ next.pump = self.pump ∧
      next.dmThreadToState = self.dmThreadToState.filter fun entry => entry.1 ≠ thread := by
  unfold Instrumentor.removeThread at removed
  split at removed
  · cases removed
  · rename_i present
    cases removed
    exact ⟨present, rfl, rfl⟩

theorem step_valid (valid : Valid self) {call : Call}
    (safe : call.Safe self) : Ends Failure.OfCaller Valid (call.step getCanonicalName self) := by
  cases call with
  | retain thread =>
    rcases valid with running | idle
    · exact (running.addThread thread).mono fun _ => Or.inl
    · exact (idle.addThread thread).mono fun _ => Or.inr
  | create thread command network =>
    rcases valid with running | idle
    · simp only [Call.step, create, running.initializeMRNet, ok_bind]
      exact (running.createProcess thread command).mono fun _ => Or.inl
    · have unregistered := safe.resolve_left (by simp [idle.initialized])
      obtain ⟨pump, thrown, started, kept⟩ := idle.initializeMRNet unregistered network
      simp only [Call.step, create, started, ok_bind]
      cases thrown with
      | true => exact Or.inr kept
      | false => exact (Running.createProcess kept thread command).mono fun _ => Or.inl
  | changeState threads state network =>
    by_cases connecting : state = .connecting
    · rcases valid with running | idle
      · simp only [Call.step, changeState, if_pos connecting, running.initializeMRNet, ok_bind]
        exact (running.connect threads).mono fun _ => Or.inl
      · have unregistered := (safe connecting).resolve_left (by simp [idle.initialized])
        obtain ⟨pump, thrown, started, kept⟩ := idle.initializeMRNet unregistered network
        simp only [Call.step, changeState, if_pos connecting, started, ok_bind]
        cases thrown with
        | true => exact Or.inr kept
        | false => exact (Running.connect kept threads).mono fun _ => Or.inl
    · rcases valid with running | idle
      · simp only [Call.step, changeState, if_neg connecting, running.initialized,
          Bool.not_true, Bool.false_eq_true, if_false]
        refine (running.validateThreads getCanonicalName threads).bind fun allConnected _ => ?_
        split
        · exact Or.inl running
        · refine Ends.mono ?_ fun _ => Or.inl
          refine (running.sendToBackends _).bind fun next kept => ?_
          exact Ends.foldlM (fun _ still thread _ => Running.setThreadState still state thread) kept
      · simp only [Call.step, changeState, if_neg connecting, idle.initialized, Bool.not_false, if_true]
        exact Or.inr rfl
  | release thread =>
    rcases valid with running | idle
    · obtain ⟨next, detached, kept, same⟩ := running.detach thread
      simp only [Call.step, release, detached, ok_bind]
      have removal := Running.removeThread kept thread
      cases removed : next.removeThread thread with
      | error failure =>
        rw [removed] at removal
        exact removal
      | ok final =>
        rw [removed] at removal
        obtain ⟨present, samePump, threads⟩ := removeThread_pump removed
        rw [same] at present threads
        obtain ⟨entry, member, other⟩ := safe running.initialized present
        have left : final.dmThreadToState.isEmpty = false := by
          rw [threads, List.isEmpty_eq_false_iff]
          exact List.ne_nil_of_mem (List.mem_filter.mpr ⟨member, by simpa using other⟩)
        simp only [ok_bind, left, Bool.false_and, Bool.false_eq_true, if_false]
        exact Or.inl removal
    · simp only [Call.step, release, detach, idle.isConnected, Bool.false_eq_true, if_false, ok_bind]
      refine (idle.removeThread thread).bind fun final still => ?_
      rw [still.initialized]
      simp only [Bool.and_false, Bool.false_eq_true, if_false]
      exact Or.inr still
  | threadsStateChanged threads state =>
    rcases valid with running | idle
    · refine Or.inl (running.of_same ?_ ?_)
      · unfold threadsStateChanged
        split <;> rfl
      · unfold threadsStateChanged
        split <;> rfl
    · have same : self.threadsStateChanged threads state = self := by
        rw [threadsStateChanged, idle.monitor]
        rfl
      simp only [Call.step, same]
      exact Or.inr idle

theorem call_kept_iff (valid : Valid self) (call : Call) :
    call.Kept getCanonicalName self ↔ call.Safe self := by
  constructor
  · intro kept
    rcases valid with running | idle
    · cases call with
      | release thread =>
        intro _ present
        by_contra alone
        obtain ⟨next, detached, running', same⟩ := running.detach thread
        obtain ⟨pump, finalized, flag, stopped⟩ := running'.finalizeMRNet
        have present' : lookup thread next.dmThreadToState ≠ none := same ▸ present
        have emptied : next.dmThreadToState.filter (fun entry => entry.1 ≠ thread) = [] := by
          rw [List.filter_eq_nil_iff, same]
          intro entry member other
          exact alone ⟨entry, member, by simpa using other⟩
        simp only [Call.Kept, Call.step, release, detached, ok_bind,
          Instrumentor.removeThread, if_neg present', emptied, List.isEmpty_nil,
          running'.initialized, Bool.and_self, if_true, finalized] at kept
        have good : Good _ := kept
        have monitor := (good.initialized.mp flag).1
        rw [stopped] at monitor
        cases monitor
      | create _ _ _ => exact Or.inl running.initialized
      | changeState _ _ _ => exact fun _ => Or.inl running.initialized
      | retain _ => trivial
      | threadsStateChanged _ _ => trivial
    · rcases idle.callbacks with unregistered | registered
      · cases call with
        | release thread =>
          intro initialized
          rw [idle.initialized] at initialized
          cases initialized
        | create _ _ _ => exact Or.inr unregistered
        | changeState _ _ _ => exact fun _ => Or.inr unregistered
        | retain _ => trivial
        | threadsStateChanged _ _ => trivial
      · cases call with
        | release thread =>
          intro initialized
          rw [idle.initialized] at initialized
          cases initialized
        | create thread command network =>
          simp only [Call.Kept, Call.step, create, idle.initializeMRNet_again registered,
            error_bind] at kept
          rcases kept with failure | failure <;> cases failure
        | changeState threads state network =>
          intro connecting
          simp only [Call.Kept, Call.step, changeState, if_pos connecting,
            idle.initializeMRNet_again registered, error_bind] at kept
          rcases kept with failure | failure <;> cases failure
        | retain _ => trivial
        | threadsStateChanged _ _ => trivial
  · intro safe
    exact (step_valid valid safe).mono fun _ still => still.good

/-- Along a run the pump is in order after every call exactly when every call is safe. -/
theorem pumpInOrder_iff (getCanonicalName : String → String) (calls : List Call) :
    Runs.Along (Call.Kept getCanonicalName)
        (fun self call => (call.step getCanonicalName self).toOption) start calls ↔
      Runs.Along (fun self call => call.Safe self)
        (fun self call => (call.step getCanonicalName self).toOption) start calls := by
  have initial : Valid start := Or.inr ⟨rfl, rfl, Or.inl rfl, rfl, by simp [start], by simp [start]⟩
  refine Runs.along_iff_along Valid (fun self call valid => call_kept_iff valid call)
    (fun self call next valid safe stepped => ?_) initial
  have ends := @step_valid getCanonicalName self valid call safe
  rw [Fallible.toOption_eq_some.mp stepped] at ends
  exact ends

end

def firstThread : Thread := ⟨1, 1, "node1"⟩

theorem second_session_stopped :
    ¬ Runs.Along (Call.Kept id) (fun self call => (call.step id self).toOption) start
      [.create firstThread "./program" (some ["node1"]), .release firstThread] := by
  rintro ⟨-, after⟩
  have created : ((Call.create firstThread "./program" (some ["node1"])).step id start).toOption =
      some ⟨⟨true, registrations, .live ["node1"], true, 1, 0⟩,
        [(.createProcess firstThread "./program", true)], [(firstThread, .connecting)],
        [firstThread]⟩ := by
    decide
  have good := (after _ created).1
  have released : (Call.release firstThread).step id
      ⟨⟨true, registrations, .live ["node1"], true, 1, 0⟩,
        [(.createProcess firstThread "./program", true)], [(firstThread, .connecting)],
        [firstThread]⟩ = .ok
      ⟨⟨true, [], .deleted, false, 1, 1⟩, [(.createProcess firstThread "./program", true)], [],
        [firstThread]⟩ := by
    decide
  rw [Call.Kept, released] at good
  have monitor := (Good.initialized good).mp rfl
  exact absurd monitor.1 (by decide)

end Instrumentor

end OpenSpeedShop.Frontend
