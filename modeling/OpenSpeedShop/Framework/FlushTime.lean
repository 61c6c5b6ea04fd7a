import OpenSpeedShop.Framework.AddressBitmapCore
import OpenSpeedShop.Framework.FlushFailure
import OpenSpeedShop.Library.Projection

/-!
The flush of all queues with its clock. The statement that should note that the
maximum time has passed compares a flag instead of assigning it.
-/

namespace OpenSpeedShop

def Time.sub (self other : Time) : Result Int64 := Address.sub self other

structure Timed where
  process : Process
  isTimeUp : Bool
  readings : Nat

namespace Timed

def setProcess (timed : Timed) (process : Process) : Timed := { timed with process := process }

def access (database : DatabasePtr) : Access Timed Tables where
  read timed := (Process.access database).read timed.process
  write timed handle := timed.setProcess ((Process.access database).write timed.process handle)
  read_write timed handle := (Process.access database).read_write timed.process handle
  write_write timed first second := by
    simp only [setProcess, (Process.access database).write_write]
  write_read timed := by
    simp only [setProcess, (Process.access database).write_read]

abbrev Act (Value : Type) := Procedure Timed DatabaseException Value

def onProcess {Value : Type} (act : DataQueues.Act Value) : Act Value :=
  Procedure.within Timed.process setProcess act

end Timed

namespace FlushTime

open Procedure DataQueues

def maximumFlushTime : Int64 := 1000 * 1000 * 1000

section

variable (clock : Nat → Time)

def now : Timed.Act Time := do
  let timed ← Procedure.get
  Procedure.modify fun timed => { timed with readings := timed.readings + 1 }
  return clock timed.readings

/-- `if((Time::Now() - start_time) > maximumFlushTime) is_time_up == true;` -/
def checkTime (startTime : Time) : Timed.Act Unit := do
  let time ← now clock
  match Time.sub time startTime with
  | .error _ => Procedure.abort
  | .ok passed =>
    if passed > maximumFlushTime then do
      let timed ← Procedure.get
      let _ := timed.isTimeUp == true
      return ()
    else return ()

/-- `while(!is_time_up && !queue->empty())` -/
def storeQueue (startTime : Time) (database : DatabasePtr) (identifier : Int)
    (reply : Nat → StoreReply) : (queue : List Blob) → (stored : Nat) → Timed.Act Unit
  | [], _ => return ()
  | blob :: rest, stored => do
      let timed ← Procedure.get
      if timed.isTimeUp then return ()
      else do
        Timed.onProcess (storeFront database blob (reply stored))
        Timed.onProcess (Procedure.modify fun process =>
          { process with identifierToQueue := process.identifierToQueue.insert identifier rest })
        checkTime clock startTime
        storeQueue startTime database identifier reply rest (stored + 1)

def flushQueue (startTime : Time) (database : DatabasePtr) (identifier : Int) (queue : List Blob)
    (reply : FlushReply) : Timed.Act Unit :=
  if queue.isEmpty then return ()
  else (Timed.access database).transaction true reply.transaction
    (storeQueue clock startTime database identifier reply.store queue 0)

def flushIdentifier (startTime : Time) (identifier : Int) (reply : FlushReply) : Timed.Act Unit := do
  let timed ← Procedure.get
  match timed.process.identifierToQueue[identifier]?, timed.process.identifierToDatabase[identifier]? with
  | some queue, some database => flushQueue clock startTime database identifier queue reply
  | some queue, none => Procedure.assert queue.isEmpty
  | none, _ => Procedure.abort

/-- `for(...; !is_time_up && (i != identifier_to_queue.end()); ++i)` -/
def flushQueues (startTime : Time) (replies : Int → FlushReply) : (identifiers : List Int) → Timed.Act Unit
  | [] => return ()
  | identifier :: rest => do
      let timed ← Procedure.get
      if timed.isTimeUp then return ()
      else do
        flushIdentifier clock startTime identifier (replies identifier)
        flushQueues startTime replies rest

def flushPerformanceData (replies : Int → FlushReply) : Timed.Act Unit := do
  let startTime ← now clock
  let timed ← Procedure.get
  flushQueues clock startTime replies timed.process.identifierToQueue.keys

def run (replies : Int → FlushReply) (process : Process) : Outcome Timed DatabaseException Unit :=
  flushPerformanceData clock replies ⟨process, false, 0⟩

end

section

variable {clock : Nat → Time} {startTime : Time}

def InTime (timed : Timed) : Prop := timed.isTimeUp = false

theorem projects_onProcess {Value : Type} (act : DataQueues.Act Value) :
    Projects Timed.process InTime (Timed.onProcess act) act :=
  Projects.within act (fun _ _ => rfl) fun _ _ holds => holds

theorem projects_call {Value : Type} (database : DatabasePtr) (act : Database.Act Tables Value) :
    Projects Timed.process InTime ((Timed.access database).call act) ((Process.access database).call act) := by
  intro timed inTime
  rw [Access.call, wlp_within]
  apply wlp_intro
  · intro value handle ran
    refine ⟨?_, inTime⟩
    have ranThere : act ((Process.access database).read timed.process) = .returned value handle := ran
    simp only [Access.call, Procedure.within, ranThere]
    rfl
  · intro error handle ran
    refine ⟨?_, inTime⟩
    have ranThere : act ((Process.access database).read timed.process) = .thrown error handle := ran
    simp only [Access.call, Procedure.within, ranThere]
    rfl

variable {database : DatabasePtr}

theorem projects_transaction {willModify : Bool} {reply : MacroReply}
    {body : Timed.Act Unit} {part : DataQueues.Act Unit}
    (projects : Projects Timed.process InTime body part) :
    Projects Timed.process InTime ((Timed.access database).transaction willModify reply body)
      ((Process.access database).transaction willModify reply part) := by
  refine Projects.onException ?_ (projects_call database _)
  refine (projects_call database _).bind fun _ => projects.bind fun _ => ?_
  exact (projects_call database _).bind fun _ => Projects.pure _

theorem wlp_checkTime {timed : Timed} : (checkTime clock startTime).wlp
      (fun _ after => after = { timed with readings := timed.readings + 1 })
      (fun _ _ => False) timed := by
  simp only [checkTime, now, wlp_bind, wlp_get, wlp_modify, wlp_pure]
  split
  · trivial
  · split
    · simp only [wlp_bind, wlp_get, wlp_pure]
    · simp only [wlp_pure]

theorem projects_storeQueue {identifier : Int}
    {reply : Nat → StoreReply} (queue : List Blob) : ∀ stored, Projects Timed.process InTime
      (storeQueue clock startTime database identifier reply queue stored)
      (DataQueues.storeQueue database identifier reply queue stored) := by
  induction queue with
  | nil => exact fun stored => Projects.pure ()
  | cons blob rest ih =>
    intro stored
    rw [storeQueue, DataQueues.storeQueue]
    refine Projects.getOwn fun timed inTime => ?_
    rw [if_neg (Bool.eq_false_iff.mp inTime)]
    refine (projects_onProcess _).bind fun _ => (projects_onProcess _).bind fun _ => ?_
    refine Projects.silent (fun timed inTime => ?_) fun _ => ih (stored + 1)
    apply wlp_mono wlp_checkTime
    · rintro _ after rfl
      exact ⟨rfl, inTime⟩
    · exact fun _ _ impossible => impossible

theorem projects_flushQueue {identifier : Int} (queue : List Blob)
    (reply : FlushReply) : Projects Timed.process InTime
      (flushQueue clock startTime database identifier queue reply)
      (DataQueues.flushQueue database identifier queue reply) := by
  unfold flushQueue DataQueues.flushQueue
  split
  · exact Projects.pure ()
  · exact projects_transaction (projects_storeQueue queue 0)

theorem projects_flushIdentifier (identifier : Int) (reply : FlushReply) :
    Projects Timed.process InTime (flushIdentifier clock startTime identifier reply)
      (DataQueues.flushIdentifier identifier reply) := by
  refine Projects.get fun timed _ => ?_
  cases timed.process.identifierToQueue[identifier]? with
  | none => exact Projects.abort _
  | some queue =>
    cases timed.process.identifierToDatabase[identifier]? with
    | none => exact Projects.assert _
    | some database => exact projects_flushQueue queue reply

theorem projects_flushQueues (replies : Int → FlushReply) (identifiers : List Int) :
    Projects Timed.process InTime (flushQueues clock startTime replies identifiers)
      (DataQueues.flushQueues replies identifiers) := by
  induction identifiers with
  | nil => exact Projects.pure ()
  | cons identifier rest ih =>
    refine Projects.getOwn fun timed inTime => ?_
    rw [if_neg (Bool.eq_false_iff.mp inTime)]
    exact (projects_flushIdentifier identifier _).bind fun _ => ih

theorem projects_flushPerformanceData (replies : Int → FlushReply) :
    Projects Timed.process InTime (flushPerformanceData clock replies)
      (DataQueues.flushPerformanceData replies) := by
  refine Projects.silent (fun timed inTime => ?_) fun startTime => ?_
  · simp only [now, wlp_bind, wlp_get, wlp_modify, wlp_pure]
    exact ⟨trivial, inTime⟩
  · exact Projects.get fun timed _ => projects_flushQueues replies _

theorem run_untimed {replies : Int → FlushReply} {process : Process} {after : Timed}
    (ended : (run clock replies process).state? = some after) :
    (DataQueues.flushPerformanceData replies process).state? = some after.process := by
  have inTime : InTime ⟨process, false, 0⟩ := rfl
  exact (projects_flushPerformanceData replies).state? inTime ended

end

def Counts (slack : Nat) (before after : Timed) : Prop :=
  before.readings + after.process.handed.length ≤ after.readings + before.process.handed.length + slack

theorem Counts.trans {slack : Nat} {first second third : Timed} (one : Counts 0 first second)
    (two : Counts slack second third) : Counts slack first third := by
  unfold Counts at one two ⊢
  omega

theorem Counts.weaken {before after : Timed} (counts : Counts 0 before after) : Counts 1 before after := by
  unfold Counts at counts ⊢
  omega

section

variable {clock : Nat → Time} {startTime : Time}

variable {database : DatabasePtr} {timed : Timed}

theorem wlp_storeFront_counts {blob : Blob} {reply : StoreReply}
    : (Timed.onProcess (storeFront database blob reply)).wlp (fun _ after => after.readings = timed.readings ∧
        after.process.handed = timed.process.handed ++ [(database, blob)])
      (fun _ after => after.readings = timed.readings ∧
        after.process.handed = timed.process.handed ++ [(database, blob)]) timed := by
  rw [Timed.onProcess, wlp_within, storeFront, wlp_bind, wlp_modify]
  exact wlp_onStore (fun _ => ⟨rfl, rfl⟩) fun _ => ⟨rfl, rfl⟩

variable {identifier : Int}

theorem wlp_storeQueue_counts {reply : Nat → StoreReply} (queue : List Blob) : ∀ stored timed,
      (storeQueue clock startTime database identifier reply queue stored).wlp
        (fun _ => Counts 0 timed) (fun _ => Counts 1 timed) timed := by
  induction queue with
  | nil => exact fun stored timed => le_refl _
  | cons blob rest ih =>
    intro stored timed
    simp only [storeQueue, wlp_bind, wlp_get]
    split
    · exact le_refl _
    · rw [wlp_bind]
      apply wlp_mono wlp_storeFront_counts
      · rintro _ middle ⟨readings, handed⟩
        rw [wlp_bind, Timed.onProcess, wlp_within, wlp_modify, wlp_bind]
        apply wlp_mono wlp_checkTime
        · rintro _ checked rfl
          have one : Counts 0 timed
              { middle.setProcess { middle.process with
                  identifierToQueue := middle.process.identifierToQueue.insert identifier rest } with
                readings := middle.readings + 1 } := by
            simp only [Counts, Timed.setProcess, handed, readings, List.length_append, List.length_singleton]
            omega
          apply wlp_mono (ih (stored + 1) _)
          · exact fun _ after counts => one.trans counts
          · exact fun _ after counts => one.trans counts
        · exact fun _ _ impossible => impossible.elim
      · rintro error after ⟨readings, handed⟩
        simp only [Counts, handed, readings, List.length_append, List.length_singleton]
        omega

theorem wlp_flushQueue_counts {queue : List Blob} {reply : FlushReply} :
    (flushQueue clock startTime database identifier queue reply).wlp
      (fun _ => Counts 0 timed) (fun _ => Counts 1 timed) timed := by
  unfold flushQueue
  split
  · exact le_refl _
  · apply Access.wlp_transaction_frame
    · exact fun _ _ counts => counts
    · exact fun _ _ counts => counts
    · exact fun _ counts => counts.weaken
    · intro handle
      have none : Counts 0 timed timed := le_refl _
      exact none.weaken
    · exact fun handle => wlp_storeQueue_counts queue 0 _

theorem wlp_flushIdentifier_counts {reply : FlushReply} :
    (flushIdentifier clock startTime identifier reply).wlp
      (fun _ => Counts 0 timed) (fun _ => Counts 1 timed) timed := by
  simp only [flushIdentifier, wlp_bind, wlp_get]
  split
  · exact wlp_flushQueue_counts
  · exact (wlp_assert _ _ _ _).mpr fun _ => le_refl _
  · trivial

theorem wlp_flushQueues_counts {replies : Int → FlushReply} (identifiers : List Int) :
    ∀ timed, (flushQueues clock startTime replies identifiers).wlp
      (fun _ => Counts 0 timed) (fun _ => Counts 1 timed) timed := by
  induction identifiers with
  | nil => exact fun timed => le_refl _
  | cons identifier rest ih =>
    intro timed
    simp only [flushQueues, wlp_bind, wlp_get]
    split
    · exact le_refl _
    · rw [wlp_bind]
      apply wlp_mono wlp_flushIdentifier_counts
      · intro _ middle one
        apply wlp_mono (ih middle)
        · exact fun _ after two => one.trans two
        · exact fun _ after two => one.trans two
      · exact fun _ after counts => counts

end

def Kept (before after : Process) : Prop :=
  ∃ log, after.handed = before.handed ++ log ∧ ∀ identifier, ∃ stored,
    queueOf before identifier = stored ++ queueOf after identifier ∧
    stored.Sublist (log.map Prod.snd)

theorem Kept.refl (process : Process) : Kept process process :=
  ⟨[], (List.append_nil _).symm, fun _ => ⟨[], rfl, List.Sublist.slnil⟩⟩

theorem Kept.trans {first second third : Process} (one : Kept first second)
    (two : Kept second third) : Kept first third := by
  obtain ⟨early, earlyHanded, earlyKept⟩ := one
  obtain ⟨late, lateHanded, lateKept⟩ := two
  refine ⟨early ++ late, by rw [lateHanded, earlyHanded, List.append_assoc], fun identifier => ?_⟩
  obtain ⟨front, firstQueue, frontHanded⟩ := earlyKept identifier
  obtain ⟨middle, secondQueue, middleHanded⟩ := lateKept identifier
  refine ⟨front ++ middle, by rw [firstQueue, secondQueue, List.append_assoc], ?_⟩
  rw [List.map_append]
  exact frontHanded.append middleHanded

variable {identifier : Int} {database : DatabasePtr}

theorem Kept.popped {before after : Process} {blob : Blob} {rest : List Blob}
    (present : before.identifierToQueue[identifier]? = some (blob :: rest))
    (handed : after.handed = before.handed ++ [(database, blob)])
    (queues : after.identifierToQueue = before.identifierToQueue.insert identifier rest) :
    Kept before after := by
  refine ⟨[(database, blob)], handed, fun other => ?_⟩
  by_cases same : other = identifier
  · subst same
    refine ⟨[blob], ?_, List.Sublist.refl _⟩
    rw [queueOf_eq present, queueOf, queues]
    simp
  · refine ⟨[], ?_, List.nil_sublist _⟩
    have apart : ¬ identifier = other := fun here => same here.symm
    simp [queueOf, queues, Std.TreeMap.getElem?_insert, apart]

theorem wlp_storeQueue_kept
    {reply : Nat → StoreReply} (queue : List Blob) : ∀ (stored : Nat) (process : Process),
      process.identifierToQueue[identifier]? = some queue →
      (DataQueues.storeQueue database identifier reply queue stored).wlp
        (fun _ => Kept process) (fun _ => Kept process) process := by
  induction queue with
  | nil => exact fun _ process _ => Kept.refl process
  | cons blob rest ih =>
    intro stored process present
    rw [DataQueues.storeQueue, wlp_bind, storeFront, wlp_bind, wlp_modify]
    apply wlp_onStore
    · intro store
      rw [wlp_bind, wlp_modify]
      have popped : Kept process { process with
          handed := process.handed ++ [(database, blob)]
          store := store
          identifierToQueue := process.identifierToQueue.insert identifier rest } :=
        Kept.popped present rfl rfl
      apply wlp_mono (ih (stored + 1) _ (by simp))
      · exact fun _ after kept => popped.trans kept
      · exact fun _ after kept => popped.trans kept
    · intro store
      exact ⟨[(database, blob)], rfl, fun _ => ⟨[], rfl, List.nil_sublist _⟩⟩

variable {process : Process}

theorem wlp_flushIdentifier_kept {reply : FlushReply} :
    (DataQueues.flushIdentifier identifier reply).wlp (fun _ => Kept process)
      (fun _ => Kept process) process := by
  simp only [DataQueues.flushIdentifier, wlp_bind, wlp_get]
  split
  · rename_i queue database present _
    unfold DataQueues.flushQueue
    split
    · exact Kept.refl process
    · apply wlp_transaction
      · exact fun _ _ kept => kept
      · exact fun _ _ kept => kept
      · exact fun _ kept => kept
      · exact fun _ => Kept.refl process
      · exact fun store => wlp_storeQueue_kept queue 0 { process with store := store } present
  · exact (wlp_assert _ _ _ _).mpr fun _ => Kept.refl process
  · trivial

variable {replies : Int → FlushReply}

theorem wlp_flushQueues_kept (identifiers : List Int) :
    ∀ process, (DataQueues.flushQueues replies identifiers).wlp (fun _ => Kept process)
      (fun _ => Kept process) process := by
  induction identifiers with
  | nil => exact Kept.refl
  | cons identifier rest ih =>
    intro process
    rw [DataQueues.flushQueues, wlp_bind]
    apply wlp_mono wlp_flushIdentifier_kept
    · intro _ middle one
      apply wlp_mono (ih middle)
      · exact fun _ after two => one.trans two
      · exact fun _ after two => one.trans two
    · exact fun _ after kept => kept

def Exceeded (clock : Nat → Time) (reading : Nat) : Prop :=
  ∃ passed, Time.sub (clock reading) (clock 0) = .ok passed ∧ passed > maximumFlushTime

/-- Nothing more is stored after a reading that has passed the limit, the one that follows as
many blobs; what is not stored stays queued in order. -/
structure StopsInTime (clock : Nat → Time) (process : Process) (after : Timed) : Prop where
  stops : ∀ reading, 0 < reading → reading < after.readings → Exceeded clock reading →
    after.process.handed.length ≤ process.handed.length + reading
  kept : Kept process after.process

def attempts (replies : Int → FlushReply) (process : Process) : Nat :=
  match (DataQueues.flushPerformanceData replies process).state? with
  | some after => after.handed.length - process.handed.length
  | none => 0

variable {clock : Nat → Time} {after : Timed}

section

variable (ended : (run clock replies process).state? = some after)
include ended

theorem run_counts : after.process.handed.length ≤ after.readings + process.handed.length := by
  have counted : (flushPerformanceData clock replies).wlp (fun _ => Counts 1 ⟨process, false, 1⟩)
      (fun _ => Counts 1 ⟨process, false, 1⟩) ⟨process, false, 0⟩ := by
    simp only [flushPerformanceData, now, wlp_bind, wlp_get, wlp_modify, wlp_pure]
    apply wlp_mono (wlp_flushQueues_counts _ _)
    · exact fun _ next counts => counts.weaken
    · exact fun _ next counts => counts
  have counts : Counts 1 ⟨process, false, 1⟩ after := wlp_state? counted ended
  simp only [Counts] at counts
  omega

theorem run_kept : Kept process after.process :=
  wlp_state? (wlp_flushQueues_kept _ process) (run_untimed ended)

theorem attempts_eq : after.process.handed.length = process.handed.length + attempts replies process := by
  obtain ⟨log, handed, -⟩ := run_kept ended
  simp only [attempts, run_untimed ended, handed, List.length_append]
  omega

end

/-- A flush that ends keeps to its limit exactly when the limit has not passed while there was
another blob to hand over. -/
theorem run_stopsInTime_iff {clock : Nat → Time} {replies : Int → FlushReply} {process : Process}
    {after : Timed} (ended : (run clock replies process).state? = some after) :
    StopsInTime clock process after ↔
      ∀ reading, 0 < reading → reading < attempts replies process → ¬ Exceeded clock reading := by
  have counts := run_counts ended
  have handed := attempts_eq ended
  constructor
  · intro stops reading positive another exceeded
    have few := stops.stops reading positive (by omega) exceeded
    omega
  · intro inTime
    refine ⟨fun reading positive taken exceeded => ?_, run_kept ended⟩
    by_contra many
    exact inTime reading positive (by omega) exceeded

def clockAt (later : Time) (reading : Nat) : Time := if reading = 0 then 0 else later

def quietFlushes (_ : Int) : FlushReply := quietFlush

theorem twoQueued_flushed (later : Time) (runs : (twoQueued.bind fun process =>
      (run (clockAt later) quietFlushes process).state?.map fun _ =>
        attempts quietFlushes process) = some 2) : ∃ process after, twoQueued = some process ∧
      (run (clockAt later) quietFlushes process).state? = some after ∧ attempts quietFlushes process = 2 := by
  obtain ⟨process, queued, flushed⟩ := Option.bind_eq_some_iff.mp runs
  obtain ⟨after, ended, count⟩ := Option.map_eq_some_iff.mp flushed
  exact ⟨process, after, queued, ended, count⟩

theorem run_stopsInTime_iff_still : ∃ process after, twoQueued = some process ∧
    (run (clockAt 0) quietFlushes process).state? = some after ∧
    StopsInTime (clockAt 0) process after := by
  obtain ⟨process, after, queued, ended, count⟩ := twoQueued_flushed 0 (by decide +kernel)
  refine ⟨process, after, queued, ended, (run_stopsInTime_iff ended).mpr ?_⟩
  intro reading positive another exceeded
  obtain rfl : reading = 1 := by omega
  obtain ⟨passed, subtracted, above⟩ := exceeded
  have passedZero : Time.sub (clockAt 0 1) (clockAt 0 0) = .ok 0 := by decide
  cases passedZero.symm.trans subtracted
  exact absurd above (by decide)

theorem secondBlob_stored : ∃ process after, twoQueued = some process ∧
    (run (clockAt 2000000000) quietFlushes process).state? = some after ∧
    ¬ StopsInTime (clockAt 2000000000) process after := by
  obtain ⟨process, after, queued, ended, count⟩ :=
    twoQueued_flushed 2000000000 (by decide +kernel)
  refine ⟨process, after, queued, ended, fun stops => ?_⟩
  refine (run_stopsInTime_iff ended).mp stops 1 (by decide) (by omega) ⟨2000000000, ?_, ?_⟩
  · decide
  · decide

end FlushTime

end OpenSpeedShop
