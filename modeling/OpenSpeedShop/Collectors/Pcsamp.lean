import OpenSpeedShop.Framework.DataCacheCore
import OpenSpeedShop.Runtime.PCData

/-!
The runtime of the PC sampling collector: a timer handler that gathers samples
and sends the buffer whenever it is full.
-/

namespace OpenSpeedShop

namespace Pcsamp

structure Data where
  interval : UInt64
  pc : List UInt64
  count : List UInt8
deriving DecidableEq

structure TLS (offline : Bool) where
  header : DataHeader
  interval : UInt64
  buffer : PCData offline
  deferSampling : Bool

structure Message where
  header : DataHeader
  data : Data
deriving DecidableEq

def Message.blob (xdr : Data → List UInt8) (message : Message) : Blob :=
  ⟨some message.header, xdr message.data⟩

structure State (offline : Bool) where
  tls : TLS offline
  sent : List Message

variable {offline : Bool}

def send (now : Time) (state : State offline) : State offline :=
  let buffer := state.tls.buffer
  let header := { state.tls.header with
    timeEnd := now
    addrBegin := buffer.addrBegin
    addrEnd := buffer.addrEnd }
  let length := buffer.length.toNat
  { tls := { state.tls with header := header }
    sent := state.sent ++ [⟨header, state.tls.interval, buffer.pc.toList.take length,
      buffer.count.toList.take length⟩] }

def restart (state : State offline) : State offline :=
  { state with tls := { state.tls with
      header := { state.tls.header with timeBegin := state.tls.header.timeEnd }
      buffer := state.tls.buffer.reset } }

def startSampling (header : DataHeader) (interval : UInt64) (now : Time) (buffer : PCData offline) :
    State offline where
  tls := ⟨{ header with timeBegin := now }, interval, buffer.reset, false⟩
  sent := []

def timerHandler (pc : UInt64) (now : Time) (state : State offline) : Option (State offline) :=
  if state.tls.deferSampling then return state
  else do
    let (full, buffer) ← PCData.updatePCData pc state.tls.buffer
    let state := { state with tls := { state.tls with buffer := buffer } }
    return if full then restart (send now state) else state

def stopSampling (now : Time) (state : State offline) : List Message :=
  if state.tls.buffer.length > 0 then (send now state).sent else state.sent

inductive Event
  | timer (pc : UInt64) (now : Time)
  | startTimer
  | stopTimer
deriving DecidableEq

def step (state : State offline) : Event → Option (State offline)
  | .timer pc now => timerHandler pc now state
  | .startTimer => some { state with tls := { state.tls with deferSampling := false } }
  | .stopTimer => some { state with tls := { state.tls with deferSampling := true } }

def sampled : (deferSampling : Bool) → List Event → List UInt64
  | _, [] => []
  | false, .timer pc _ :: rest => pc :: sampled false rest
  | true, .timer _ _ :: rest => sampled true rest
  | _, .startTimer :: rest => sampled false rest
  | _, .stopTimer :: rest => sampled true rest

end Pcsamp

namespace Pcsamp

open PCData (Counted recorded)

variable {offline : Bool}

def Message.samples (message : Message) : List (UInt64 × UInt8) :=
  message.data.pc.zip message.data.count

structure Message.Gathered (offline : Bool) (message : Message) : Prop where
  short : message.data.pc.length ≤ pcBufferSize offline
  counts : message.data.count.length = message.data.pc.length
  positive : ∀ sample ∈ message.samples, 0 < sample.2
  unexhausted : ∀ (first second : Nat) (pc : UInt64) (firstCount secondCount : UInt8),
    message.samples[first]? = some (pc, firstCount) → firstCount < 255 →
    message.samples[second]? = some (pc, secondCount) → secondCount < 255 → first = second
  bounds : ∀ pc ∈ message.data.pc, message.header.addrBegin ≤ pc ∧ pc ≤ message.header.addrEnd
  lowest : message.header.addrBegin ∈ message.data.pc
  highest : message.header.addrEnd ∈ message.data.pc

structure Sampling (state : State offline) : Prop where
  valid : state.tls.buffer.Valid
  spans : state.tls.buffer.Spans
  room : state.tls.buffer.length.toNat < pcBufferSize offline
  positive : ∀ entry ∈ state.tls.buffer.entries, 0 < entry.2
  gathered : ∀ message ∈ state.sent, message.Gathered offline

def total (state : State offline) (pc : UInt64) : Nat :=
  (state.sent.map fun message => recorded message.samples pc).sum + recorded state.tls.buffer.entries pc

def sentMessage (now : Time) (state : State offline) : Message :=
  ⟨{ state.tls.header with
      timeEnd := now
      addrBegin := state.tls.buffer.addrBegin
      addrEnd := state.tls.buffer.addrEnd },
    state.tls.interval, state.tls.buffer.pc.toList.take state.tls.buffer.length.toNat,
    state.tls.buffer.count.toList.take state.tls.buffer.length.toNat⟩

theorem send_sent (now : Time) (state : State offline) :
    (send now state).sent = state.sent ++ [sentMessage now state] := rfl

theorem samples_sentMessage (now : Time) (state : State offline) :
    (sentMessage now state).samples = state.tls.buffer.entries := by
  simp only [Message.samples, sentMessage, PCData.entries, List.zip, List.take_zipWith]

theorem pc_sentMessage (now : Time) (state : State offline) :
    (sentMessage now state).data.pc = state.tls.buffer.pcs := by
  have same : (state.tls.buffer.pc.toList.take state.tls.buffer.length.toNat).length =
      (state.tls.buffer.count.toList.take state.tls.buffer.length.toNat).length := by simp
  rw [PCData.pcs, ← samples_sentMessage now state, Message.samples, List.map_fst_zip]
  exact same.le

theorem sentMessage_gathered (now : Time) {state : State offline}
    (valid : state.tls.buffer.Valid) (spans : state.tls.buffer.Spans)
    (positive : ∀ entry ∈ state.tls.buffer.entries, 0 < entry.2)
    (used : 0 < state.tls.buffer.length.toNat) : (sentMessage now state).Gathered offline := by
  have attained : state.tls.buffer.addrBegin ∈ state.tls.buffer.pcs ∧
      state.tls.buffer.addrEnd ∈ state.tls.buffer.pcs := by
    rcases spans.attained with ⟨empty, _⟩ | both
    · have length := PCData.length_entries valid.fits
      rw [PCData.pcs, List.map_eq_nil_iff] at empty
      rw [empty] at length
      simp only [List.length_nil] at length
      omega
    · exact both
  have samples := samples_sentMessage now state
  have pcs := pc_sentMessage now state
  refine ⟨?_, ?_, ?_, ?_, ?_, ?_, ?_⟩
  · simp [sentMessage, valid.fits]
  · simp [sentMessage]
  · rwa [samples]
  · rw [samples]
    intro first second pc firstCount secondCount atFirst firstBelow atSecond secondBelow
    exact valid.unexhausted_unique atFirst firstBelow atSecond secondBelow
  · rw [pcs]
    exact spans.bounds
  · rw [pcs]
    exact attained.1
  · rw [pcs]
    exact attained.2

theorem startSampling_sampling (header : DataHeader) (interval : UInt64) (now : Time)
    (buffer : PCData offline) : Sampling (startSampling header interval now buffer) where
  valid := buffer.reset_valid
  spans := buffer.reset_spans
  room := PCData.pcBufferSize_pos
  positive entry member := by
    rw [startSampling, PCData.entries_reset] at member
    cases member
  gathered message member := by cases member

theorem Counted.positive {pc : UInt64} {before after : List (UInt64 × UInt8)}
    (counted : Counted pc before after) (positive : ∀ entry ∈ before, 0 < entry.2) :
    ∀ entry ∈ after, 0 < entry.2 := by
  intro entry member
  cases counted with
  | added after_eq =>
    rw [after_eq, List.mem_append, List.mem_singleton] at member
    rcases member with old | rfl
    · exact positive entry old
    · exact (by decide : (0 : UInt8) < 1)
  | incremented place count present below after_eq =>
    rw [after_eq] at member
    rcases List.mem_or_eq_of_mem_set member with old | rfl
    · exact positive entry old
    · have bound : count.toNat < 255 := below
      rw [UInt8.lt_iff_toNat_lt, UInt8.toNat_add]
      simp only [UInt8.reduceToNat]
      omega

theorem timerHandler_total {state : State offline} (sampling : Sampling state)
    (notDeferred : state.tls.deferSampling = false) (pc : UInt64) (now : Time) :
    ∃ next, timerHandler pc now state = some next ∧ Sampling next ∧ next.tls.deferSampling = false ∧
      ∀ other, total next other = total state other + if pc = other then 1 else 0 := by
  obtain ⟨full, buffer, updated, valid, spans, fullEq, used, counted⟩ :=
    PCData.updatePCData_total sampling.valid sampling.spans sampling.room pc
  have positive := Counted.positive counted sampling.positive
  cases full with
  | false =>
    refine ⟨{ state with tls := { state.tls with buffer := buffer } }, ?_, ?_, notDeferred, ?_⟩
    · simp [timerHandler, notDeferred, updated]
    · have room : buffer.length.toNat ≠ pcBufferSize offline := of_decide_eq_false fullEq.symm
      exact ⟨valid, spans, lt_of_le_of_ne valid.fits room, positive, sampling.gathered⟩
    · intro other
      simp only [total, counted.recorded other]
      omega
  | true =>
    let updatedState := { state with tls := { state.tls with buffer := buffer } }
    have gathered : (sentMessage now updatedState).Gathered offline :=
      sentMessage_gathered now valid spans positive used
    refine ⟨restart (send now updatedState), ?_, ?_, notDeferred, ?_⟩
    · simp [timerHandler, notDeferred, updated, updatedState]
    · refine ⟨PCData.reset_valid _, PCData.reset_spans _, PCData.pcBufferSize_pos, ?_, ?_⟩
      · intro entry member
        rw [restart, PCData.entries_reset] at member
        cases member
      · intro message member
        have sent : message ∈ state.sent ++ [sentMessage now updatedState] := member
        rcases List.mem_append.mp sent with old | new
        · exact sampling.gathered message old
        · exact List.mem_singleton.mp new ▸ gathered
    · intro other
      have sent : (restart (send now updatedState)).sent = state.sent ++ [sentMessage now updatedState] := rfl
      have empty : (restart (send now updatedState)).tls.buffer.entries = [] :=
        PCData.entries_reset _
      have samples : (sentMessage now updatedState).samples = buffer.entries :=
        samples_sentMessage now updatedState
      simp only [total, sent, empty, List.map_append, List.sum_append, List.map_cons,
        List.map_nil, List.sum_singleton, samples, counted.recorded other]
      simp only [recorded, List.filter_nil, List.map_nil, List.sum_nil]
      omega

theorem run_total (events : List Event) : ∀ {state : State offline}, Sampling state →
    ∃ final, Runs.run step state events = some final ∧ Sampling final ∧
      ∀ pc, total final pc = total state pc + (sampled state.tls.deferSampling events).count pc := by
  induction events with
  | nil =>
    intro state sampling
    exact ⟨state, rfl, sampling, fun pc => by simp [sampled]⟩
  | cons event rest ih =>
    intro state sampling
    rw [Runs.run_cons]
    cases event with
    | timer pc now =>
      cases deferred : state.tls.deferSampling with
      | true =>
        have skipped : step state (.timer pc now) = some state := by
          simp [step, timerHandler, deferred]
        obtain ⟨final, ran, after, totals⟩ := ih sampling
        rw [deferred] at totals
        exact ⟨final, by rw [skipped, Option.bind_some, ran], after, totals⟩
      | false =>
        obtain ⟨next, handled, sampling, notDeferred, totals⟩ :=
          timerHandler_total sampling deferred pc now
        obtain ⟨final, ran, after, finalTotals⟩ := ih sampling
        rw [notDeferred] at finalTotals
        refine ⟨final, by rw [step, handled, Option.bind_some, ran], after, fun other => ?_⟩
        rw [finalTotals, totals, sampled, List.count_cons]
        simp only [beq_iff_eq]
        omega
    | startTimer =>
      exact @ih { state with tls := { state.tls with deferSampling := false } }
        ⟨sampling.valid, sampling.spans, sampling.room, sampling.positive, sampling.gathered⟩
    | stopTimer =>
      exact @ih { state with tls := { state.tls with deferSampling := true } }
        ⟨sampling.valid, sampling.spans, sampling.room, sampling.positive, sampling.gathered⟩

theorem stopSampling_total (now : Time) {state : State offline} (sampling : Sampling state) :
    (∀ message ∈ stopSampling now state, message.Gathered offline) ∧
      ∀ pc, ((stopSampling now state).map fun message => recorded message.samples pc).sum =
        total state pc := by
  unfold stopSampling
  split
  · rename_i used
    have gathered := sentMessage_gathered now sampling.valid sampling.spans sampling.positive
      (by simpa [UInt16.lt_iff_toNat_lt] using used)
    constructor
    · intro message member
      rw [send_sent] at member
      rcases List.mem_append.mp member with old | new
      · exact sampling.gathered message old
      · exact List.mem_singleton.mp new ▸ gathered
    · intro pc
      simp [send_sent, total, samples_sentMessage]
  · rename_i unused
    refine ⟨sampling.gathered, fun pc => ?_⟩
    have empty : state.tls.buffer.entries = [] := by
      apply List.eq_nil_of_length_eq_zero
      rw [PCData.length_entries sampling.valid.fits]
      simpa [UInt16.lt_iff_toNat_lt] using unused
    simp [total, empty, recorded]

/-- The samples of a whole run: every handler call ends within the arrays, and the counts sent for an
address add up to its samples, without a second entry where a count could be incremented. -/
theorem samples_conserved (offline : Bool) (header : DataHeader) (interval : UInt64)
    (started stopped : Time) (buffer : PCData offline) (events : List Event) :
    ∃ final, Runs.run step (startSampling header interval started buffer) events = some final ∧
      (∀ pc, ((stopSampling stopped final).map fun message => recorded message.samples pc).sum =
        (sampled false events).count pc) ∧
      ∀ message ∈ stopSampling stopped final, message.Gathered offline := by
  obtain ⟨final, ran, sampling, totals⟩ :=
    run_total events (startSampling_sampling header interval started buffer)
  obtain ⟨gathered, sums⟩ := stopSampling_total stopped sampling
  refine ⟨final, ran, fun pc => ?_, gathered⟩
  have nothing : total (startSampling header interval started buffer) pc = 0 := by
    rw [total, startSampling, PCData.entries_reset]
    rfl
  rw [sums, totals, nothing, Nat.zero_add]
  rfl

def emptyBuffer (offline : Bool) : PCData offline :=
  ⟨0, 0, 0, Vector.replicate _ 0, Vector.replicate _ 0, Vector.replicate _ 0⟩

def sampleHeader : DataHeader := ⟨0, 1, "host", 7, 7, 0, 0, 0, 0⟩

theorem exhausted_count_repeats : ∃ final, Runs.run step
      (startSampling sampleHeader 10 1 (emptyBuffer false))
      (List.replicate 256 (.timer 64 2)) = some final ∧
    ∃ message ∈ stopSampling 3 final, ¬ message.data.pc.Nodup := by
  have evaluated : (Runs.run step (startSampling sampleHeader 10 1 (emptyBuffer false))
      (List.replicate 256 (.timer 64 2))).map (fun final =>
        (stopSampling 3 final).map fun message => (message.data.pc, message.data.count)) =
      some [([64, 64], [255, 1])] := by
    decide +kernel
  obtain ⟨final, ran, sent⟩ := Option.map_eq_some_iff.mp evaluated
  have member : ([64, 64], [255, 1]) ∈
      (stopSampling 3 final).map fun message => (message.data.pc, message.data.count) := by
    simp [sent]
  obtain ⟨message, inSent, same⟩ := List.mem_map.mp member
  have pcs : message.data.pc = [64, 64] := (Prod.mk.inj same).1
  exact ⟨final, ran, message, inSent, by simp [pcs]⟩

end Pcsamp

end OpenSpeedShop
