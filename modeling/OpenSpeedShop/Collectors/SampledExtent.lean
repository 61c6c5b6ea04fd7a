import OpenSpeedShop.Collectors.Pcsamp
import OpenSpeedShop.Framework.DataCache

/-!
The collector's runtime gives the highest sampled address as the end of the
address range, which the framework takes to lie outside of it.
-/

namespace OpenSpeedShop.Pcsamp

open DataCache DataQueues Procedure Access Database ExtentTable

/-- What may have become of the rows when a store ends: nothing, or a row for the
blob was added, whose header was accepted. -/
def AddsAccepted (blob : Blob) (before after : Tables) : Prop :=
  after.data = before.data ∨ ∃ header thread, blob.header = some header ∧
    header.addrBegin < header.addrEnd ∧
    after.data = before.data ++ [dataRow header thread blob.data before.nextRowid]

theorem accepted?_header {blob : Blob} {canonicalName : String} {tables : Tables}
    {header : DataHeader} {thread : Int}
    (accepted : accepted? blob canonicalName tables = some (header, thread)) :
    blob.header = some header ∧ header.addrBegin < header.addrEnd := by
  simp only [accepted?, Option.bind_eq_bind, Option.bind_eq_some_iff] at accepted
  obtain ⟨found, isHeader, accepted⟩ := accepted
  split at accepted
  · cases accepted
  · rename_i valid
    obtain ⟨rfl, rfl⟩ := Prod.mk.inj (Option.some.inj accepted)
    simp only [Bool.or_eq_true, decide_eq_true_eq, not_or] at valid
    exact ⟨isHeader, not_le.mp valid.1.1.1⟩

theorem flush_addsAccepted (nthElement : NthElement) {name : DatabasePtr → String}
    {contents : DatabasePtr → Tables} {database : DatabasePtr} {begun : BeginReply} {blob : Blob}
    {reply : StoreReply} {next : Store}
    (ran : Runs.run (DataCache.Call.step nthElement) (Store.opened name contents)
      [.beginTransaction database true begun, .storePerformanceData database blob reply] = some next) :
    AddsAccepted blob (contents database) (tables next database) := by
  simp only [Runs.run_cons, Runs.run_nil, Option.bind_eq_some_iff, Option.some.injEq] at ran
  obtain ⟨middle, begins, last, stores, rfl⟩ := ran
  have started : tables middle database = contents database ∧ middle.theCache = ExtentTable.empty := by
    apply @wlp_state? _ _ _ _ (fun middle => tables middle database = contents database ∧
      middle.theCache = ExtentTable.empty) _ _ _ begins
    rw [wlp_call]
    apply wlp_beginTransaction_outermost rfl
    intro command _
    have same := issue_committed command
      (rfl : ((Store.opened name contents).handles database).dmDatabase.working = _)
    have working : tables ((Store.access database).write (Store.opened name contents)
        (begunOutermost command ((Store.opened name contents).handles database))) database =
        ((Store.opened name contents).handles database).dmDatabase.working := by
      simpa [tables, begunOutermost] using same.1
    exact ⟨working, rfl⟩
  obtain ⟨working, empty⟩ := started
  have caches : ∀ key, ∃ pairs, middle.theCache.Caches key pairs :=
    fun key => ⟨[], empty ▸ caches_empty key⟩
  simp only [DataCache.Call.step] at stores
  split at stores
  · cases stores
  · rename_i nested
    apply @wlp_state? _ _ _ _ (fun after =>
      AddsAccepted blob (contents database) (tables after database)) _ _ _ stores
    have added : ∀ {header : DataHeader} {thread : Int} {after : Tables},
        accepted? blob reply.canonicalName (tables middle database) = some (header, thread) →
        after.data = ((tables middle database).insertData (dataRow header thread blob.data)).data →
        AddsAccepted blob (contents database) after := by
      intro header thread after accepted rows
      obtain ⟨isHeader, ordered⟩ := accepted?_header accepted
      refine Or.inr ⟨header, thread, isHeader, ordered, ?_⟩
      rw [rows, working]
      rfl
    apply wlp_storePerformanceData rfl (by simpa using nested) caches
    · intro after _ _ _ inside _
      left
      rw [tables, inside.working, ← working]
      rfl
    · intro after header thread _ _ accepted inserted _ _ inside _ _
      apply added accepted
      rw [tables, inside.working, inserted]
      rfl
    · intro _ after _ _ inside _
      left
      rw [tables, inside.working, ← working]
      rfl
    · intro _ after header thread _ _ _ accepted inserted _ _ inside _ _ _ _
      apply added accepted
      rw [tables, inside.working, inserted]
      rfl

def StoredOver (pcs : List Address) (before after : List DataRow) : Prop :=
  ∃ row ∈ after, row ∉ before ∧ ∀ pc ∈ pcs, row.extent.dmRange.doesContain pc = true

theorem dataRow_dmRange (header : DataHeader) (thread : Int) (data : List UInt8) (id : Int) :
    (dataRow header thread data id).extent.dmRange = ⟨header.addrBegin, header.addrEnd⟩ := by
  simp [DataRow.extent, dataRow]

section

variable {offline : Bool} {message : Message} (gathered : message.Gathered offline)
  {xdr : Data → List UInt8} {before after : Tables}
  (added : AddsAccepted (message.blob xdr) before after)
include gathered added

theorem Message.Gathered.not_storedOver : ¬ StoredOver message.data.pc before.data after.data := by
  rintro ⟨row, inAfter, new, contains⟩
  rcases added with same | ⟨header, thread, isHeader, _, rows⟩
  · exact new (same ▸ inAfter)
  · obtain rfl : message.header = header := Option.some.inj isHeader
    rw [rows, List.mem_append, List.mem_singleton] at inAfter
    obtain rfl := inAfter.resolve_left new
    have inside := contains _ gathered.highest
    rw [dataRow_dmRange, Interval.doesContain_iff] at inside
    exact lt_irrefl _ inside.2

theorem Message.Gathered.dropped_of_single {only : UInt64}
    (single : ∀ pc ∈ message.data.pc, pc = only) : after.data = before.data := by
  rcases added with same | ⟨header, thread, isHeader, ordered, _⟩
  · exact same
  · obtain rfl : message.header = header := Option.some.inj isHeader
    rw [single _ gathered.lowest, single _ gathered.highest] at ordered
    exact absurd ordered (lt_irrefl _)

end

/-- No message that the runtime sends is stored under a range that contains all of
its sampled addresses, and one that has only one of them is dropped. -/
theorem sampled_never_inside {offline : Bool} {header : DataHeader} {interval : UInt64}
    {started stopped : Time} {buffer : PCData offline} {events : List Event}
    {final : State offline}
    (sampling : Runs.run step (startSampling header interval started buffer) events = some final)
    {message : Message} (sent : message ∈ stopSampling stopped final) (xdr : Data → List UInt8)
    (nthElement : NthElement) {name : DatabasePtr → String} {contents : DatabasePtr → Tables}
    {database : DatabasePtr} {begun : BeginReply} {reply : StoreReply} {next : Store}
    (stored : Runs.run (DataCache.Call.step nthElement) (Store.opened name contents)
      [.beginTransaction database true begun,
        .storePerformanceData database (message.blob xdr) reply] = some next) :
    ¬ StoredOver message.data.pc (contents database).data (tables next database).data ∧
      ((∃ only, ∀ pc ∈ message.data.pc, pc = only) →
        (tables next database).data = (contents database).data) := by
  obtain ⟨reached, ran, valid, _⟩ :=
    run_total events (startSampling_sampling header interval started buffer)
  obtain rfl : reached = final := Option.some.inj (ran.symm.trans sampling)
  have gathered := (stopSampling_total stopped valid).1 message sent
  have added := flush_addsAccepted nthElement stored
  exact ⟨gathered.not_storedOver added, fun ⟨_, single⟩ => gathered.dropped_of_single added single⟩

def oneSample : Message where
  header := ⟨0, 1, "host", 7, 7, 1, 3, 64, 64⟩
  data := ⟨10, [64], [1]⟩

theorem oneSample_sent : ∃ final, Runs.run step
      (startSampling sampleHeader 10 1 (emptyBuffer false)) [.timer 64 2] = some final ∧
    stopSampling 3 final = [oneSample] := by
  have evaluated : (Runs.run step (startSampling sampleHeader 10 1 (emptyBuffer false))
      [.timer 64 2]).map (stopSampling 3) = some [oneSample] := by
    decide +kernel
  exact Option.map_eq_some_iff.mp evaluated

def noXdr : Data → List UInt8 := fun _ => []

def oneStore : List DataCache.Call :=
  [.beginTransaction 1 true .ok, .storePerformanceData 1 (oneSample.blob noXdr) quietStore]

theorem oneStore_runs : ∃ next, Runs.run (DataCache.Call.step NthElement.bySorting) sampleStore
      oneStore = some next ∧ (tables next 1).data = [] := by
  have evaluated : (Runs.run (DataCache.Call.step NthElement.bySorting) sampleStore
      oneStore).map (fun next => (tables next 1).data) = some [] := by decide +kernel
  exact Option.map_eq_some_iff.mp evaluated

theorem sampled_never_inside_oneSample :
    ∃ next, ¬ StoredOver [64] oneThread.data (tables next 1).data ∧ (tables next 1).data = oneThread.data := by
  obtain ⟨final, ran, sent⟩ := oneSample_sent
  obtain ⟨next, stores, _⟩ := oneStore_runs
  obtain ⟨missed, dropped⟩ := sampled_never_inside ran (sent ▸ List.mem_singleton_self oneSample)
    noXdr NthElement.bySorting stores
  exact ⟨next, missed, dropped ⟨64, by simp [oneSample]⟩⟩

theorem oneSample_dropped : ∃ final next, Runs.run step
      (startSampling sampleHeader 10 1 (emptyBuffer false)) [.timer 64 2] = some final ∧
    stopSampling 3 final = [oneSample] ∧
    Runs.run (DataCache.Call.step NthElement.bySorting) sampleStore oneStore = some next ∧
    (tables next 1).data = [] := by
  obtain ⟨final, ran, sent⟩ := oneSample_sent
  obtain ⟨next, stores, empty⟩ := oneStore_runs
  exact ⟨final, next, ran, sent, stores, empty⟩

end OpenSpeedShop.Pcsamp
