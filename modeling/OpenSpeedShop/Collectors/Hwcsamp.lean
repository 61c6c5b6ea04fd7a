import OpenSpeedShop.Framework.DataCacheCore
import OpenSpeedShop.Runtime.HWCPCData

/-!
The runtime of the hardware counter sampling collector.
-/

namespace OpenSpeedShop

namespace Hwcsamp

structure Data where
  interval : UInt64
  pc : List UInt64
  count : List UInt8
  events : List EvCounts
deriving DecidableEq

structure TLS (offline : Bool) where
  header : DataHeader
  interval : UInt64
  buffer : HWCPCData offline
  deferSampling : Bool

structure Message where
  header : DataHeader
  data : Data
deriving DecidableEq

structure State (offline : Bool) where
  tls : TLS offline
  evalues : EValues
  sent : List Message

variable {offline : Bool}

def zeroValues : EValues := Vector.replicate 6 0

def sendSamples (now : Time) (state : State offline) : State offline :=
  let buffer := state.tls.buffer
  let length := buffer.length.toNat
  let header := { state.tls.header with
    timeEnd := now
    addrBegin := buffer.addrBegin
    addrEnd := buffer.addrEnd }
  { tls := { state.tls with
      header := { header with
        timeBegin := header.timeEnd
        timeEnd := 0
        addrBegin := ~~~0
        addrEnd := 0 }
      buffer := buffer.reset }
    evalues := zeroValues
    sent := state.sent ++ [⟨header, state.tls.interval, buffer.pc.toList.take length,
      buffer.count.toList.take length, buffer.hwccounts.toList.take length⟩] }

def debugOutput (debug : Bool) (state : State offline) : Option Unit :=
  if debug then
    -- `length-1` is an `int`, and no row when the buffer has just been sent
    let last : Int := state.tls.buffer.length.toNat - 1
    if 0 ≤ last ∧ last < hwcPCBufferSize offline then some () else none
  else some ()

def timerHandler (debug : Bool) (pc : UInt64) (counted : EValues) (now : Time)
    (state : State offline) : Option (State offline) :=
  if state.tls.deferSampling then return state
  else do
    let evalues := Vector.zipWith (· + ·) state.evalues counted
    let (full, buffer) ← HWCPCData.updateHWCPCData pc state.tls.buffer evalues
    let state := { state with tls := { state.tls with buffer := buffer }, evalues := evalues }
    let state := if full then sendSamples now state else state
    let state := { state with evalues := zeroValues }
    debugOutput debug state
    return state

def startSampling (header : DataHeader) (interval : UInt64) (now : Time)
    (buffer : HWCPCData offline) : State offline where
  tls := ⟨{ header with timeBegin := now }, interval, buffer.reset, false⟩
  evalues := zeroValues
  sent := []

def stopSampling (now : Time) (state : State offline) : List Message :=
  if state.tls.buffer.length > 0 then (sendSamples now state).sent else state.sent

/-- `stopTimer` has what `PAPI_stop` writes to the values, unless the counters are stopped
already. -/
inductive Event
  | timer (pc : UInt64) (counted : EValues) (now : Time)
  | startTimer
  | stopTimer (written : Option EValues)

def step (debug : Bool) (state : State offline) : Event → Option (State offline)
  | .timer pc counted now => timerHandler debug pc counted now state
  | .startTimer => some { state with tls := { state.tls with deferSampling := false } }
  | .stopTimer written => some { state with
      tls := { state.tls with deferSampling := true }
      evalues := written.getD state.evalues }

structure Sample where
  pc : UInt64
  values : EValues

def sampled : (deferSampling : Bool) → (evalues : EValues) → List Event → List Sample
  | _, _, [] => []
  | false, evalues, .timer pc counted _ :: rest =>
    ⟨pc, Vector.zipWith (· + ·) evalues counted⟩ :: sampled false zeroValues rest
  | true, evalues, .timer _ _ _ :: rest => sampled true evalues rest
  | _, evalues, .startTimer :: rest => sampled false evalues rest
  | _, evalues, .stopTimer written :: rest => sampled true (written.getD evalues) rest

end Hwcsamp

/-!
Every sample is gathered in one row of one message, with all of its event counters.
-/

namespace Hwcsamp

open HWCPCData (Recorded addCounts)

variable {offline : Bool}

structure Gathers (row : HWCRow) (group : List Sample) : Prop where
  own : ∀ sample ∈ group, sample.pc = row.pc
  counted : row.count.toNat = group.length
  summed : ∀ event : Fin 6,
    row.events[event].toNat ≡ (group.map fun sample => sample.values[event].toInt).sum [ZMOD 2 ^ 64]

def Accounts (rows : List HWCRow) (samples : List Sample) : Prop :=
  ∃ groups, List.Forall₂ Gathers rows groups ∧ groups.flatten.Perm samples

def Message.rows (message : Message) : List HWCRow :=
  hwcRows message.data.pc message.data.count message.data.events

structure Message.Aligned (offline : Bool) (message : Message) : Prop where
  short : message.data.pc.length ≤ hwcPCBufferSize offline
  counts : message.data.count.length = message.data.pc.length
  events : message.data.events.length = message.data.pc.length

theorem toInt_toUInt64 (value : Int64) : (value.toUInt64.toNat : Int) ≡ value.toInt [ZMOD 2 ^ 64] := by
  have wrapped : value.toInt = (value.toUInt64.toNat : Int).bmod (2 ^ 64) :=
    BitVec.toInt_eq_toNat_bmod value.toBitVec
  rw [wrapped]
  exact (Int.bmod_emod).symm

theorem getElem_addCounts (counts : EvCounts) (values : EValues) (event : Fin 6) :
    ((addCounts counts values)[event].toNat : Int) ≡
      counts[event].toNat + values[event].toInt [ZMOD 2 ^ 64] := by
  have sum : (addCounts counts values)[event] = counts[event] + values[event].toUInt64 := by
    simp [addCounts]
  rw [sum, UInt64.toNat_add]
  push_cast
  exact (Int.mod_modEq _ _).trans (Int.ModEq.add_left _ (toInt_toUInt64 _))

theorem Gathers.add {row : HWCRow} {group : List Sample} (gathers : Gathers row group)
    {sample : Sample} (own : row.pc = sample.pc) (below : row.count < 255) :
    Gathers ⟨sample.pc, row.count + 1, addCounts row.events sample.values⟩ (sample :: group) where
  own other member := by
    rcases List.mem_cons.mp member with rfl | old
    · rfl
    · exact (gathers.own other old).trans own
  counted := by
    have bound : row.count.toNat < 255 := below
    have counted := gathers.counted
    rw [UInt8.toNat_add, List.length_cons]
    simp only [UInt8.reduceToNat]
    omega
  summed event := by
    rw [List.map_cons, List.sum_cons, add_comm sample.values[event].toInt]
    exact (getElem_addCounts _ _ event).trans ((gathers.summed event).add_right _)

theorem gathers_single (sample : Sample) :
    Gathers ⟨sample.pc, 1, sample.values.map Int64.toUInt64⟩ [sample] where
  own other member := by rw [List.mem_singleton.mp member]
  counted := rfl
  summed event := by
    simpa using toInt_toUInt64 sample.values[event]

theorem forall₂_set {First Second : Type*} {Relates : First → Second → Prop} {first : List First}
    {second : List Second} (related : List.Forall₂ Relates first second) :
    ∀ {place : Nat} {value : First}, first[place]? = some value →
      ∃ other, second[place]? = some other ∧ Relates value other ∧
        ∀ newFirst newSecond, Relates newFirst newSecond →
          List.Forall₂ Relates (first.set place newFirst) (second.set place newSecond) := by
  induction related with
  | nil =>
    intro place value held
    cases held
  | @cons head other rest others headRelated _ ih =>
    intro place value held
    cases place with
    | zero =>
      obtain rfl : head = value := Option.some.inj held
      exact ⟨other, rfl, headRelated, fun _ _ relates => .cons relates ‹_›⟩
    | succ place =>
      obtain ⟨found, atPlace, relates, kept⟩ := ih held
      exact ⟨found, atPlace, relates, fun _ _ new => .cons headRelated (kept _ _ new)⟩

theorem flatten_set_cons {Value : Type*} (value : Value) {groups : List (List Value)} :
    ∀ {place : Nat} {group : List Value}, groups[place]? = some group →
      (groups.set place (value :: group)).flatten.Perm (value :: groups.flatten) := by
  induction groups with
  | nil =>
    intro place group held
    cases held
  | cons first rest ih =>
    intro place group held
    cases place with
    | zero =>
      obtain rfl : first = group := Option.some.inj held
      exact List.Perm.refl _
    | succ place =>
      rw [List.set_cons_succ, List.flatten_cons, List.flatten_cons]
      exact ((ih held).append_left first).trans List.perm_middle

variable {samples : List Sample}

theorem Accounts.record {before after : List HWCRow} (accounts : Accounts before samples) {sample : Sample}
    (recorded : Recorded sample.pc sample.values before after) : Accounts after (sample :: samples) := by
  obtain ⟨groups, gathers, all⟩ := accounts
  cases recorded with
  | incremented entry row present own below after_eq =>
    obtain ⟨group, held, gathered, kept⟩ := forall₂_set gathers present
    refine ⟨groups.set entry (sample :: group), ?_, ?_⟩
    · rw [after_eq]
      exact kept _ _ (gathered.add own below)
    · exact (flatten_set_cons sample held).trans (all.cons sample)
  | added after_eq =>
    refine ⟨groups ++ [[sample]], ?_, ?_⟩
    · rw [after_eq]
      exact List.rel_append gathers (.cons (gathers_single sample) .nil)
    · rw [List.flatten_append, List.flatten_singleton]
      exact (List.perm_append_comm).trans (all.cons sample)

theorem Recorded.behind {pc : UInt64} {evcounts : EValues} {before after : List HWCRow}
    (recorded : Recorded pc evcounts before after) (sent : List HWCRow) :
    Recorded pc evcounts (sent ++ before) (sent ++ after) := by
  cases recorded with
  | incremented entry row present own below after_eq =>
    refine .incremented (sent.length + entry) row ?_ own below ?_
    · rw [List.getElem?_append_right (Nat.le_add_right _ _), Nat.add_sub_cancel_left]
      exact present
    · rw [after_eq, List.set_append_right _ _ (Nat.le_add_right _ _), Nat.add_sub_cancel_left]
  | added after_eq =>
    exact .added (by rw [after_eq, List.append_assoc])

structure Sampling (state : State offline) : Prop where
  valid : state.tls.buffer.Valid
  room : state.tls.buffer.length.toNat < hwcPCBufferSize offline
  aligned : ∀ message ∈ state.sent, message.Aligned offline

def allRows (state : State offline) : List HWCRow :=
  state.sent.flatMap Message.rows ++ state.tls.buffer.rows

variable {state : State offline}

theorem sendSamples_sent (now : Time) (valid : state.tls.buffer.Valid) :
    ∃ message : Message, (sendSamples now state).sent = state.sent ++ [message] ∧
      message.rows = state.tls.buffer.rows ∧ message.Aligned offline := by
  have fits := valid.fits
  exact ⟨_, rfl, rfl, by simp [fits], by simp [fits], by simp [fits]⟩

theorem allRows_sendSamples (now : Time)
    (valid : state.tls.buffer.Valid) : allRows (sendSamples now state) = allRows state := by
  obtain ⟨message, sent, rows, _⟩ := sendSamples_sent now valid
  have empty : (sendSamples now state).tls.buffer.rows = [] := HWCPCData.rows_reset _
  rw [allRows, allRows, sent, empty, List.append_nil, List.flatMap_append, List.flatMap_singleton, rows]

theorem sendSamples_aligned (now : Time)
    (valid : state.tls.buffer.Valid) (aligned : ∀ message ∈ state.sent, message.Aligned offline) :
    ∀ message ∈ (sendSamples now state).sent, message.Aligned offline := by
  obtain ⟨last, sent, _, lastAligned⟩ := sendSamples_sent now valid
  intro message member
  rw [sent] at member
  rcases List.mem_append.mp member with old | new
  · exact aligned message old
  · exact List.mem_singleton.mp new ▸ lastAligned

theorem startSampling_sampling (header : DataHeader) (interval : UInt64) (now : Time)
    (buffer : HWCPCData offline) : Sampling (startSampling header interval now buffer) where
  valid := buffer.reset_valid
  room := HWCPCData.hwcPCBufferSize_pos
  aligned message member := by cases member

theorem timerHandler_total (sampling : Sampling state)
    (notDeferred : state.tls.deferSampling = false) (pc : UInt64) (counted : EValues)
    (now : Time) (accounts : Accounts (allRows state) samples) :
    ∃ next, timerHandler false pc counted now state = some next ∧ Sampling next ∧
      next.tls.deferSampling = false ∧ next.evalues = zeroValues ∧
      Accounts (allRows next) (⟨pc, Vector.zipWith (· + ·) state.evalues counted⟩ :: samples) := by
  let evalues := Vector.zipWith (· + ·) state.evalues counted
  obtain ⟨full, buffer, updated, valid, fullEq, used, recorded⟩ :=
    HWCPCData.updateHWCPCData_total sampling.valid sampling.room pc evalues
  let updatedState : State offline :=
    { state with tls := { state.tls with buffer := buffer }, evalues := evalues }
  have recordedAll : Accounts (allRows updatedState) (⟨pc, evalues⟩ :: samples) :=
    accounts.record (Recorded.behind recorded _)
  cases full with
  | false =>
    refine ⟨{ updatedState with evalues := zeroValues }, ?_, ?_, notDeferred, rfl, recordedAll⟩
    · simp [timerHandler, notDeferred, updated, updatedState, debugOutput, evalues]
    · have room : buffer.length.toNat ≠ hwcPCBufferSize offline :=
        of_decide_eq_false fullEq.symm
      exact ⟨valid, lt_of_le_of_ne valid.fits room, sampling.aligned⟩
  | true =>
    refine ⟨{ sendSamples now updatedState with evalues := zeroValues }, ?_, ?_, notDeferred,
      rfl, ?_⟩
    · simp [timerHandler, notDeferred, updated, updatedState, debugOutput, evalues]
    · exact ⟨HWCPCData.reset_valid _, HWCPCData.hwcPCBufferSize_pos,
        sendSamples_aligned now valid sampling.aligned⟩
    · have sent : allRows (sendSamples now updatedState) = allRows updatedState :=
        allRows_sendSamples now valid
      exact sent ▸ recordedAll

theorem run_total (events : List Event) : ∀ {state : State offline} {samples : List Sample},
    Sampling state → Accounts (allRows state) samples →
    ∃ final, Runs.run (step false) state events = some final ∧ Sampling final ∧
      Accounts (allRows final) (sampled state.tls.deferSampling state.evalues events ++ samples) := by
  induction events with
  | nil =>
    intro state samples sampling accounts
    exact ⟨state, rfl, sampling, accounts⟩
  | cons event rest ih =>
    intro state samples sampling accounts
    rw [Runs.run_cons]
    cases event with
    | timer pc counted now =>
      cases deferred : state.tls.deferSampling with
      | true =>
        have skipped : step false state (.timer pc counted now) = some state := by
          simp [step, timerHandler, deferred]
        obtain ⟨final, ran, after, all⟩ := ih sampling accounts
        rw [deferred] at all
        exact ⟨final, by rw [skipped, Option.bind_some, ran], after, all⟩
      | false =>
        obtain ⟨next, handled, nextSampling, notDeferred, cleared, recorded⟩ :=
          timerHandler_total sampling deferred pc counted now accounts
        obtain ⟨final, ran, after, groups, gathers, all⟩ := ih nextSampling recorded
        rw [notDeferred, cleared] at all
        exact ⟨final, by rw [step, handled, Option.bind_some, ran], after, groups, gathers,
          all.trans List.perm_middle⟩
    | startTimer =>
      exact @ih { state with tls := { state.tls with deferSampling := false } } samples
        ⟨sampling.valid, sampling.room, sampling.aligned⟩ accounts
    | stopTimer written =>
      exact @ih { state with
          tls := { state.tls with deferSampling := true }
          evalues := written.getD state.evalues } samples
        ⟨sampling.valid, sampling.room, sampling.aligned⟩ accounts

theorem stopSampling_total (now : Time) (sampling : Sampling state) :
    (∀ message ∈ stopSampling now state, message.Aligned offline) ∧
      (stopSampling now state).flatMap Message.rows = allRows state := by
  unfold stopSampling
  split
  · refine ⟨sendSamples_aligned now sampling.valid sampling.aligned, ?_⟩
    have sent := allRows_sendSamples now sampling.valid
    have empty : (sendSamples now state).tls.buffer.rows = [] := HWCPCData.rows_reset _
    rw [← sent, allRows, empty, List.append_nil]
  · rename_i unused
    refine ⟨sampling.aligned, ?_⟩
    have zero : state.tls.buffer.length.toNat = 0 := by
      simpa [UInt16.lt_iff_toNat_lt] using unused
    have empty : state.tls.buffer.rows = [] := by
      rw [HWCPCData.rows, HWCPCData.pcs, zero]
      rfl
    rw [allRows, empty, List.append_nil]

def sentCount (rows : List HWCRow) (pc : UInt64) : Nat :=
  ((rows.filter fun row => row.pc = pc).map fun row => row.count.toNat).sum

def sentEvents (rows : List HWCRow) (pc : UInt64) (event : Fin 6) : Int :=
  ((rows.filter fun row => row.pc = pc).map fun row => (row.events[event].toNat : Int)).sum

def samplesAt (samples : List Sample) (pc : UInt64) : List Sample :=
  samples.filter fun sample => sample.pc = pc

def sampledEvents (samples : List Sample) (pc : UInt64) (event : Fin 6) : Int :=
  ((samplesAt samples pc).map fun sample => sample.values[event].toInt).sum

theorem Gathers.samplesAt_append {row : HWCRow} {group : List Sample}
    (gathers : Gathers row group) (rest : List Sample) (pc : UInt64) : samplesAt (group ++ rest) pc =
      if row.pc = pc then group ++ samplesAt rest pc else samplesAt rest pc := by
  rw [samplesAt, List.filter_append]
  split
  · rename_i own
    rw [List.filter_eq_self.mpr fun sample member =>
      decide_eq_true ((gathers.own sample member).trans own)]
    rfl
  · rename_i other
    rw [List.filter_eq_nil_iff.mpr fun sample member =>
      by simpa using fun same => other ((gathers.own sample member).symm.trans same)]
    rfl

variable {rows : List HWCRow}

theorem Accounts.count (accounts : Accounts rows samples) (pc : UInt64) :
    sentCount rows pc = (samplesAt samples pc).length := by
  obtain ⟨groups, gathers, all⟩ := accounts
  rw [samplesAt, ← (all.filter _).length_eq]
  clear all
  induction gathers with
  | nil => rfl
  | @cons row group rest others gathered _ ih =>
    have split := gathered.samplesAt_append others.flatten pc
    rw [samplesAt, samplesAt] at split
    rw [List.flatten_cons, split, sentCount, List.filter_cons]
    by_cases own : row.pc = pc
    · rw [if_pos own, if_pos (decide_eq_true own), List.map_cons, List.sum_cons,
        List.length_append, ← ih, gathered.counted]
      rfl
    · rw [if_neg own, if_neg (by simpa using own), ← ih]
      rfl

theorem sampledEvents_perm {first second : List Sample} (same : first.Perm second) (pc : UInt64)
    (event : Fin 6) : sampledEvents first pc event = sampledEvents second pc event :=
  ((same.filter _).map _).sum_eq

theorem sentEvents_of_rows {groups : List (List Sample)} {pc : UInt64}
    {event : Fin 6} (Same : Int → Int → Prop) (zero : Same 0 0)
    (add : ∀ first second third fourth, Same first second → Same third fourth →
      Same (first + third) (second + fourth)) (gathers : List.Forall₂ Gathers rows groups)
    (each : ∀ row group, group ∈ groups → Gathers row group → row.pc = pc →
      Same row.events[event].toNat (group.map fun sample => sample.values[event].toInt).sum) :
    Same (sentEvents rows pc event) (sampledEvents groups.flatten pc event) := by
  induction gathers with
  | nil => exact zero
  | @cons row group rest others gathered _ ih =>
    have later := ih fun row group member => each row group (List.mem_cons_of_mem _ member)
    rw [sampledEvents, List.flatten_cons, gathered.samplesAt_append, sentEvents, List.filter_cons]
    by_cases own : row.pc = pc
    · rw [if_pos own, if_pos (decide_eq_true own), List.map_cons, List.sum_cons,
        List.map_append, List.sum_append]
      exact add _ _ _ _ (each row group List.mem_cons_self gathered own) later
    · rw [if_neg own, if_neg (by simpa using own)]
      exact later

theorem Accounts.events (accounts : Accounts rows samples) (pc : UInt64) (event : Fin 6) :
    sentEvents rows pc event ≡ sampledEvents samples pc event [ZMOD 2 ^ 64] := by
  obtain ⟨groups, gathers, all⟩ := accounts
  rw [← sampledEvents_perm all]
  exact sentEvents_of_rows (Int.ModEq (2 ^ 64)) rfl (fun _ _ _ _ => Int.ModEq.add) gathers
    fun row group _ gathered _ => gathered.summed event

theorem Accounts.events_exact (accounts : Accounts rows samples) {pc : UInt64} {event : Fin 6}
    (natural : ∀ sample ∈ samplesAt samples pc, 0 ≤ sample.values[event].toInt)
    (bounded : sampledEvents samples pc event < 2 ^ 64) :
    sentEvents rows pc event = sampledEvents samples pc event := by
  obtain ⟨groups, gathers, all⟩ := accounts
  rw [← sampledEvents_perm all] at bounded ⊢
  refine sentEvents_of_rows Eq rfl (fun _ _ _ _ first second => by rw [first, second]) gathers ?_
  intro row group member gathered own
  have inside : group.Sublist (samplesAt groups.flatten pc) := by
    have kept : samplesAt group pc = group :=
      List.filter_eq_self.mpr fun sample inGroup =>
        decide_eq_true ((gathered.own sample inGroup).trans own)
    rw [← kept]
    exact (List.sublist_flatten_of_mem member).filter _
  have positive : ∀ value ∈ (samplesAt groups.flatten pc).map
      (fun sample => sample.values[event].toInt), 0 ≤ value := by
    intro value held
    obtain ⟨sample, inSamples, rfl⟩ := List.mem_map.mp held
    exact natural sample ((all.filter _).mem_iff.mp inSamples)
  have below : (group.map fun sample => sample.values[event].toInt).sum ≤
      sampledEvents groups.flatten pc event :=
    (inside.map _).sum_le_sum positive
  have atLeast : 0 ≤ (group.map fun sample => sample.values[event].toInt).sum :=
    List.sum_nonneg fun value held => positive value ((inside.map _).subset held)
  have wrapped : (row.events[event].toNat : Int) < 2 ^ 64 := by
    exact_mod_cast row.events[event].toNat_lt
  have congruent := gathered.summed event
  rwa [Int.ModEq, Int.emod_eq_of_lt (by omega) wrapped,
    Int.emod_eq_of_lt atLeast (lt_of_le_of_lt below bounded)] at congruent

/-- The samples of a whole run: every handler call ends within the arrays of a message, each row counts
its samples of its address, and the sums of an address are those of its samples. -/
theorem hwcSamples_conserved (offline : Bool) (header : DataHeader) (interval : UInt64)
    (started stopped : Time) (buffer : HWCPCData offline) (events : List Event) :
    ∃ final, Runs.run (step false) (startSampling header interval started buffer) events = some final ∧
      (∀ message ∈ stopSampling stopped final, message.Aligned offline) ∧
      Accounts ((stopSampling stopped final).flatMap Message.rows) (sampled false zeroValues events) ∧
      ∀ pc, sentCount ((stopSampling stopped final).flatMap Message.rows) pc =
          (samplesAt (sampled false zeroValues events) pc).length ∧
        ∀ event, sentEvents ((stopSampling stopped final).flatMap Message.rows) pc event ≡
            sampledEvents (sampled false zeroValues events) pc event [ZMOD 2 ^ 64] ∧
          ((∀ sample ∈ samplesAt (sampled false zeroValues events) pc, 0 ≤ sample.values[event].toInt) →
            sampledEvents (sampled false zeroValues events) pc event < 2 ^ 64 →
            sentEvents ((stopSampling stopped final).flatMap Message.rows) pc event =
              sampledEvents (sampled false zeroValues events) pc event) := by
  have nothing : Accounts (allRows (startSampling header interval started buffer)) [] :=
    ⟨[], .nil, List.Perm.refl _⟩
  obtain ⟨final, ran, sampling, accounts⟩ :=
    run_total events (startSampling_sampling header interval started buffer) nothing
  obtain ⟨aligned, rows⟩ := stopSampling_total stopped sampling
  rw [List.append_nil] at accounts
  refine ⟨final, ran, aligned, ?_⟩
  rw [rows]
  exact ⟨accounts, fun pc => ⟨accounts.count pc, fun event =>
    ⟨accounts.events pc event, accounts.events_exact⟩⟩⟩

def emptyBuffer (offline : Bool) : HWCPCData offline :=
  ⟨0, 0, 0, Vector.replicate _ 0, Vector.replicate _ 0, Vector.replicate _ (Vector.replicate 6 0),
    Vector.replicate _ 0⟩

def sampleHeader : DataHeader := ⟨0, 1, "host", 7, 7, 0, 0, 0, 0⟩

def fullCounter : EValues := #v[9223372036854775807, 0, 0, 0, 0, 0]

theorem event_counter_wraps : ∃ final, Runs.run (step false)
      (startSampling sampleHeader 10 1 (emptyBuffer false))
      (List.replicate 3 (.timer 64 fullCounter 2)) = some final ∧
    sentEvents ((stopSampling 3 final).flatMap Message.rows) 64 0 ≠
      sampledEvents (sampled false zeroValues (List.replicate 3 (.timer 64 fullCounter 2))) 64 0 := by
  have evaluated : (Runs.run (step false) (startSampling sampleHeader 10 1 (emptyBuffer false))
      (List.replicate 3 (.timer 64 fullCounter 2))).map (fun final =>
        sentEvents ((stopSampling 3 final).flatMap Message.rows) 64 0) =
      some 9223372036854775805 := by
    decide +kernel
  obtain ⟨final, ran, sent⟩ := Option.map_eq_some_iff.mp evaluated
  refine ⟨final, ran, ?_⟩
  rw [sent]
  decide +kernel

end Hwcsamp

end OpenSpeedShop
