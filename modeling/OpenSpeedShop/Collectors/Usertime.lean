import OpenSpeedShop.Collectors.UsertimeCore
import OpenSpeedShop.Library.MarkedBlocks
import OpenSpeedShop.Library.WindowCompare

/-!
When the stacks that are decoded from the messages are those that were sampled.
-/

namespace OpenSpeedShop.Usertime

open MarkedBlocks Fallible

def sampleOf (block : Block Address UInt8) : Sample :=
  (block.items.filter keptAddress, block.mark)

theorem pos_iff_ne_zero (count : UInt8) : 0 < count ↔ count ≠ 0 := by
  rw [UInt8.lt_iff_toNat_lt, Ne, ← UInt8.toNat_inj]
  simp only [UInt8.reduceToNat]
  omega

theorem decodeFrom_eq (block : Block Address UInt8) (rest : List (UInt64 × UInt8)) :
    decodeFrom block.items block.mark rest = (cutFrom 0 block rest).map sampleOf := by
  induction rest generalizing block with
  | nil => rfl
  | cons entry rest ih =>
    rcases entry with ⟨frame, next⟩
    rw [decodeFrom, cutFrom]
    by_cases blank : next = 0
    · rw [if_neg (by simp [blank]), if_pos blank, ← ih]
      rfl
    · rw [if_pos ((pos_iff_ne_zero next).mpr blank), if_neg blank, List.map_cons, ← ih]
      rfl

theorem decodeStacks_eq (entries : List (UInt64 × UInt8)) :
    decodeStacks entries = (cut 0 entries).map sampleOf := by
  cases entries with
  | nil => rfl
  | cons entry rest => exact decodeFrom_eq ⟨entry.1, [], entry.2⟩ rest

variable {blocks : List (Block Address UInt8)}

theorem decodeStacks_flat (marks : ∀ block ∈ blocks, block.mark ≠ 0) :
    decodeStacks (flat 0 blocks) = blocks.map sampleOf := by
  rw [decodeStacks_eq, cut_flat marks]

variable {samples : List Sample}

theorem Data.kept_of_decode {data : Data} (decoded : data.decode = some samples) :
    ∀ sample ∈ samples, ∀ frame ∈ sample.1, keptAddress frame = true := by
  intro sample member frame inside
  rw [Data.decode] at decoded
  split at decoded
  · obtain rfl := Option.some.inj decoded
    rw [decodeStacks_eq] at member
    obtain ⟨block, -, rfl⟩ := List.mem_map.mp member
    exact (List.mem_filter.mp inside).2
  · cases decoded

theorem kept_of_decode {messages : List Message} (decoded : decode messages = some samples) :
    ∀ sample ∈ samples, ∀ frame ∈ sample.1, keptAddress frame = true := by
  intro sample member
  obtain ⟨message, _, more, data, here⟩ := mem_of_gather decoded member
  exact Data.kept_of_decode data sample here

def counted (samples : List Sample) (trace : List Address) : Nat :=
  ((samples.filter fun sample => sample.1 = trace).map fun sample => sample.2.toNat).sum

theorem counted_append (first second : List Sample) (trace : List Address) :
    counted (first ++ second) trace = counted first trace + counted second trace := by
  simp [counted]

theorem counted_cons (sample : Sample) (samples : List Sample) (trace : List Address) :
    counted (sample :: samples) trace =
      (if sample.1 = trace then sample.2.toNat else 0) + counted samples trace := by
  by_cases same : sample.1 = trace <;> simp [counted, same]

theorem counted_of_missing {trace : List Address}
    (missing : ∀ sample ∈ samples, sample.1 ≠ trace) : counted samples trace = 0 := by
  have none : samples.filter (fun sample => sample.1 = trace) = [] := by
    simpa [List.filter_eq_nil_iff] using missing
  simp [counted, none]

theorem toNat_add_one {count : UInt8} (below : count < 255) : (count + 1).toNat = count.toNat + 1 := by
  have bound : count.toNat < 255 := below
  rw [UInt8.toNat_add]
  simp only [UInt8.reduceToNat]
  omega

variable {before after : List (Block Address UInt8)}

theorem remark_marks {block : Block Address UInt8}
    (marks : ∀ other ∈ before ++ block :: after, other.mark ≠ 0) (below : block.mark < 255) :
    ∀ other ∈ before ++ block.remark (block.mark + 1) :: after, other.mark ≠ 0 := by
  intro other member
  rcases List.mem_append.mp member with early | late
  · exact marks other (by simp [early])
  · rcases List.mem_cons.mp late with rfl | late
    · rw [Block.mark_remark, Ne, ← UInt8.toNat_inj, toNat_add_one below]
      exact Nat.succ_ne_zero _
    · exact marks other (by simp [late])

theorem counted_remark (before after : List (Block Address UInt8)) (block : Block Address UInt8)
    (below : block.mark < 255) (trace : List Address) :
    counted ((before ++ block.remark (block.mark + 1) :: after).map sampleOf) trace =
      counted ((before ++ block :: after).map sampleOf) trace +
        if block.items.filter keptAddress = trace then 1 else 0 := by
  have longer := toNat_add_one below
  have sample : sampleOf (block.remark (block.mark + 1)) =
      (block.items.filter keptAddress, block.mark + 1) := rfl
  simp only [List.map_append, List.map_cons, counted_append, counted_cons, sample, longer]
  simp only [sampleOf]
  by_cases same : block.items.filter keptAddress = trace
  · simp only [same, if_true]
    omega
  · simp only [same, if_false]
    omega

structure Lies (tls : TLS) (entries : List (UInt64 × UInt8)) : Prop where
  bt : tls.buffer.bt.toList.take tls.btLen = entries.map Prod.fst
  count : tls.buffer.count.toList.take tls.countLen = entries.map Prod.snd
  btLen : tls.btLen = entries.length
  countLen : tls.countLen = entries.length

variable {tls : TLS} {entries : List (UInt64 × UInt8)}

theorem Lies.fits (lies : Lies tls entries) : entries.length ≤ bufferSize := by
  have length := congrArg List.length lies.bt
  rw [List.length_take, Vector.length_toList, List.length_map, lies.btLen] at length
  omega

theorem Lies.data (lies : Lies tls entries) :
    tls.data = ⟨tls.interval, entries.map Prod.fst, entries.map Prod.snd⟩ := by
  rw [TLS.data, lies.bt, lies.count]

theorem Lies.zip_data (lies : Lies tls entries) : tls.data.bt.zip tls.data.count = entries := by
  rw [lies.data, List.zip_map']
  simp

theorem Lies.decode (lies : Lies tls (flat 0 blocks)) (marks : ∀ block ∈ blocks, block.mark ≠ 0) :
    tls.data.decode = some (blocks.map sampleOf) := by
  have lengths : tls.data.bt.length = tls.data.count.length := by
    simp [lies.data]
  rw [Data.decode, if_pos lengths, lies.zip_data, decodeStacks_flat marks]

theorem Lies.empty (btLen : tls.btLen = 0) (countLen : tls.countLen = 0) : Lies tls [] := by
  constructor <;> simp [btLen, countLen]

theorem Lies.addFrame (lies : Lies tls entries)
    (room : entries.length < bufferSize) (i : Nat) (frame : UInt64) :
    ∃ next, addFrame i frame tls = some next ∧ next.deferSampling = tls.deferSampling ∧
      Lies next (entries ++ [(frame, if i > 0 then 0 else 1)]) := by
  have both : tls.btLen < bufferSize ∧ tls.countLen < bufferSize := by
    rw [lies.btLen, lies.countLen]
    exact ⟨room, room⟩
  refine ⟨_, dif_pos both, rfl, ?_⟩
  have grown : ∀ {Item : Type} (items : List Item) (length : Nat) (item : Item),
      length < items.length → (items.set length item).take (length + 1) = items.take length ++ [item] := by
    intro Item items length item inside
    rw [List.take_add_one, List.take_set_of_le (Nat.le_refl _)]
    simp [inside]
  constructor
  · simp only [Vector.toList_set]
    rw [grown _ _ _ (by simpa using both.1), lies.bt]
    simp
  · simp only [Vector.toList_set]
    rw [grown _ _ _ (by simpa using both.2), lies.count]
    simp
  · simp [lies.btLen]
  · simp [lies.countLen]

theorem Lies.addFrames_behind (frames : List UInt64) : ∀ {tls : TLS} {entries : List (UInt64 × UInt8)},
    Lies tls entries → entries.length + frames.length ≤ bufferSize → ∀ i, 0 < i →
      ∃ next, addFrames i frames tls = some next ∧ next.deferSampling = tls.deferSampling ∧
        Lies next (entries ++ frames.map (·, 0)) := by
  induction frames with
  | nil =>
    intro tls entries lies _ i _
    exact ⟨tls, rfl, rfl, by simpa using lies⟩
  | cons frame rest ih =>
    intro tls entries lies room i behind
    rw [List.length_cons] at room
    obtain ⟨middle, added, same, there⟩ := lies.addFrame (by omega) i frame
    rw [if_pos behind] at there
    have fits : (entries ++ [(frame, 0)]).length + rest.length ≤ bufferSize := by
      rw [List.length_append, List.length_singleton]
      omega
    obtain ⟨next, ran, still, all⟩ := ih there fits (i + 1) (by omega)
    refine ⟨next, ?_, still.trans same, ?_⟩
    · rw [addFrames, added, Option.bind_some, ran]
    · simpa using all

def CallStack.block (stack : CallStack) : Block Address UInt8 :=
  ⟨stack.frames.head stack.nonempty, stack.frames.tail, 1⟩

theorem CallStack.items_block (stack : CallStack) : stack.block.items = stack.frames :=
  List.cons_head_tail stack.nonempty

theorem Lies.addFrames (lies : Lies tls (flat 0 blocks)) (stack : CallStack)
    (room : (flat (0 : UInt8) blocks).length + stack.frames.length ≤ bufferSize) :
    ∃ next, addFrames 0 stack.frames tls = some next ∧ next.deferSampling = tls.deferSampling ∧
      Lies next (flat 0 (blocks ++ [stack.block])) := by
  have split : stack.frames = stack.block.head :: stack.block.tail := stack.items_block.symm
  rw [split, List.length_cons] at room
  obtain ⟨middle, added, same, there⟩ := lies.addFrame (by omega) 0 stack.block.head
  have fits : (flat (0 : UInt8) blocks ++ [(stack.block.head, if 0 > 0 then 0 else 1)]).length +
      stack.block.tail.length ≤ bufferSize := by
    rw [List.length_append, List.length_singleton]
    omega
  obtain ⟨next, ran, still, all⟩ :=
    Lies.addFrames_behind stack.block.tail there fits 1 Nat.one_pos
  refine ⟨next, ?_, still.trans same, ?_⟩
  · rw [split, Usertime.addFrames, added, Option.bind_some, ran]
  · rw [flat_append]
    simpa [Block.marked, CallStack.block] using all

theorem Lies.updateCount {block : Block Address UInt8} (lies : Lies tls (flat 0 (before ++ block :: after)))
    (below : block.mark < 255) : ∃ next, updateCount tls (flat (0 : UInt8) before).length = some next ∧
      next.deferSampling = tls.deferSampling ∧
      Lies next (flat 0 (before ++ block.remark (block.mark + 1) :: after)) := by
  have place := getElem?_flat_head (0 : UInt8) before after block
  have short : (flat (0 : UInt8) before).length < (flat (0 : UInt8) (before ++ block :: after)).length :=
    (List.getElem?_eq_some_iff.mp place).1
  have inside : (flat (0 : UInt8) before).length < bufferSize := short.trans_le lies.fits
  have lengths : (flat (0 : UInt8) (before ++ block.remark (block.mark + 1) :: after)).length =
      (flat (0 : UInt8) (before ++ block :: after)).length := by
    have same := congrArg List.length (map_fst_flat_remark (0 : UInt8) before after block (block.mark + 1))
    simpa using same
  have count : tls.buffer.count[(flat (0 : UInt8) before).length] = block.mark := by
    have taken : (tls.buffer.count.toList.take tls.countLen)[(flat (0 : UInt8) before).length]? =
        some block.mark := by
      rw [lies.count, List.getElem?_map, place]
      rfl
    rw [List.getElem?_take_of_lt (lies.countLen ▸ short), Vector.getElem?_toList,
      Vector.getElem?_eq_getElem inside] at taken
    exact Option.some.inj taken
  refine ⟨{ tls with buffer.count := tls.buffer.count.set _ (block.mark + 1) inside }, ?_, rfl, ?_, ?_, ?_, ?_⟩
  · rw [Usertime.updateCount, dif_pos inside]
    simp only [count, below, if_true]
  · rw [map_fst_flat_remark]
    exact lies.bt
  · rw [← map_snd_flat_set, ← lies.count]
    simp only [Vector.toList_set, List.take_set]
  · rw [lengths]
    exact lies.btLen
  · rw [lengths]
    exact lies.countLen

def Searched (tls : TLS) (i : Nat) : Prop :=
  ∃ count, i < tls.countLen ∧ tls.buffer.count[i]? = some count ∧ 0 < count ∧ count < 255

theorem sameFrames_eq_compareAt (bt : Vector UInt64 bufferSize) (framebuf : List UInt64) :
    ∀ i, sameFrames bt i framebuf = WindowCompare.compareAt bt i framebuf := by
  induction framebuf with
  | nil => exact fun i => rfl
  | cons frame rest ih =>
    intro i
    rw [sameFrames, WindowCompare.compareAt]
    simp only [ih]

theorem matchesAt_of_searched {i : Nat} (searched : Searched tls i) (framebuf : List UInt64) :
    matchesAt tls framebuf i = sameFrames tls.buffer.bt i framebuf := by
  obtain ⟨count, -, read, positive, below⟩ := searched
  have top : count ≠ 0 := (pos_iff_ne_zero count).mp positive
  simp [matchesAt, read, top, UInt8.ne_of_lt below]

section

variable {i : Nat} (used : i < tls.countLen) (inside : i < bufferSize)
include used inside

theorem matchesAt_of_not_searched (skipped : ¬ Searched tls i) (framebuf : List UInt64) :
    matchesAt tls framebuf i = some false := by
  have read : tls.buffer.count[i]? = some tls.buffer.count[i] := Vector.getElem?_eq_getElem inside
  have passed : tls.buffer.count[i] = 0 ∨ tls.buffer.count[i] = 255 := by
    by_contra neither
    rw [not_or] at neither
    refine skipped ⟨_, used, read, (pos_iff_ne_zero _).mpr neither.1, ?_⟩
    have apart : tls.buffer.count[i].toNat ≠ 255 :=
      fun same => neither.2 (UInt8.toNat_inj.mp same)
    have bound := tls.buffer.count[i].toNat_lt
    rw [UInt8.lt_iff_toNat_lt]
    simp only [UInt8.reduceToNat]
    omega
  simp [matchesAt, read, passed]

theorem matchesAt_eq_true (framebuf : List UInt64) : matchesAt tls framebuf i = some true ↔
      Searched tls i ∧ framebuf <+: tls.buffer.bt.toList.drop i := by
  by_cases searched : Searched tls i
  · rw [matchesAt_of_searched searched, sameFrames_eq_compareAt, WindowCompare.compareAt_eq_true]
    exact ⟨fun found => ⟨searched, found⟩, And.right⟩
  · rw [matchesAt_of_not_searched used inside searched]
    simp [searched]

theorem matchesAt_eq_none (framebuf : List UInt64) : matchesAt tls framebuf i = none ↔
      Searched tls i ∧ tls.buffer.bt.toList.drop i <+: framebuf ∧ tls.buffer.bt.toList.drop i ≠ framebuf := by
  by_cases searched : Searched tls i
  · rw [matchesAt_of_searched searched, sameFrames_eq_compareAt, WindowCompare.compareAt_eq_none]
    exact ⟨fun past => ⟨searched, past⟩, And.right⟩
  · rw [matchesAt_of_not_searched used inside searched]
    simp [searched]

end

/-- What the next step does with a stack: nothing behind the arrays is read, a stack that is found is the
sampled one, and none of its addresses is left out when it is decoded. -/
structure Sound (state : State) (stack : CallStack) : Prop where
  inside : ∀ i, Searched state.tls i → state.tls.buffer.bt.toList.drop i <+: stack.frames →
    state.tls.buffer.bt.toList.drop i = stack.frames
  exact : ∀ i, Searched state.tls i → stack.frames <+: state.tls.buffer.bt.toList.drop i →
    (∀ later, Searched state.tls later → i < later →
      ¬ stack.frames <+: state.tls.buffer.bt.toList.drop later) →
    leading 0 ((state.tls.data.bt.zip state.tls.data.count).drop i) = stack.frames
  kept : ∀ frame ∈ stack.frames, keptAddress frame = true

theorem stackindex_lastFound (tls : TLS) (framebuf : List UInt64) :
    LastFound (matchesAt tls framebuf) tls.countLen (stackindex tls framebuf) :=
  lastFound_keepLast _ _

variable {state : State}

variable {stack : CallStack}

theorem timerHandler_found (lies : Lies state.tls (flat 0 blocks))
    (notDeferred : state.tls.deferSampling = false) {place : Nat} (searched : Searched state.tls place)
    (found : stackindex state.tls stack.frames = some (some place)) (now : Time) :
    ∃ before block after next, blocks = before ++ block :: after ∧
      place = (flat (0 : UInt8) before).length ∧ block.mark < 255 ∧
      timerHandler stack now state = some next ∧ next.sent = state.sent ∧ next.tls.deferSampling = false ∧
      Lies next.tls (flat 0 (before ++ block.remark (block.mark + 1) :: after)) := by
  obtain ⟨count, used, read, positive, below⟩ := searched
  have mark : ((flat (0 : UInt8) blocks)[place]?).map Prod.snd = some count := by
    rw [← List.getElem?_map, ← lies.count, List.getElem?_take_of_lt used, Vector.getElem?_toList, read]
  obtain ⟨⟨frame, _⟩, entry, rfl⟩ := Option.map_eq_some_iff.mp mark
  obtain ⟨before, block, after, rfl, there, same⟩ :=
    place_of_mark entry ((pos_iff_ne_zero _).mp positive)
  rw [← same] at below
  obtain ⟨tls, updated, still, after_lies⟩ := lies.updateCount below
  refine ⟨before, block, after, { state with tls := tls }, rfl, there, below, ?_, rfl,
    still.trans notDeferred, after_lies⟩
  simp [timerHandler, notDeferred, found, there, updated]

theorem timerHandler_missed
    (lies : Lies state.tls (flat 0 blocks)) (notDeferred : state.tls.deferSampling = false)
    (missed : stackindex state.tls stack.frames = some none) (now : Time) :
    ∃ next, timerHandler stack now state = some next ∧ next.tls.deferSampling = false ∧
      (next.sent = state.sent ∧ Lies next.tls (flat 0 (blocks ++ [stack.block])) ∨
        (∃ message, message.data = state.tls.data ∧ next.sent = state.sent ++ [message]) ∧
          Lies next.tls (flat 0 [stack.block])) := by
  by_cases full : state.tls.btLen + stack.frames.length > bufferSize
  · have fresh : Lies (sendSamples now state).tls (flat 0 []) := Lies.empty rfl rfl
    have short : (flat (0 : UInt8) ([] : List (Block Address UInt8))).length +
        stack.frames.length ≤ bufferSize := by
      have bound := stack.short
      simp only [maxFrames] at bound
      simp only [flat_nil, List.length_nil, bufferSize]
      omega
    obtain ⟨tls, added, still, all⟩ := fresh.addFrames stack short
    refine ⟨{ sendSamples now state with tls := tls }, ?_, still.trans notDeferred,
      Or.inr ⟨⟨_, rfl, rfl⟩, all⟩⟩
    simp [timerHandler, notDeferred, missed, full, added]
  · have room : (flat (0 : UInt8) blocks).length + stack.frames.length ≤ bufferSize := by
      rw [← lies.btLen]
      omega
    obtain ⟨tls, added, still, all⟩ := lies.addFrames stack room
    refine ⟨{ state with tls := tls }, ?_, still.trans notDeferred, Or.inl ⟨rfl, all⟩⟩
    simp [timerHandler, notDeferred, missed, full, added]

/-- The samples that have been sent and the blocks that are stored give each stack
its count. -/
structure Gathered (traces : List (List Address)) (state : State) (samples : List Sample)
    (blocks : List (Block Address UInt8)) : Prop where
  lies : Lies state.tls (flat 0 blocks)
  marks : ∀ block ∈ blocks, block.mark ≠ 0
  kept : ∀ block ∈ blocks, ∀ frame ∈ block.items, keptAddress frame = true
  sent : decode state.sent = some samples
  counts : ∀ trace, counted (samples ++ blocks.map sampleOf) trace = traces.count trace

def Conserved (traces : List (List Address)) (messages : List Message) : Prop :=
  ∃ samples, decode messages = some samples ∧ ∀ trace, counted samples trace = traces.count trace

theorem decode_append {messages : List Message} {message : Message} {samples more : List Sample}
    (first : decode messages = some samples) (last : message.data.decode = some more) :
    decode (messages ++ [message]) = some (samples ++ more) := by
  rw [decode] at first ⊢
  rw [gather_snoc, first, Option.bind_some, last, Option.map_some]

theorem decode_stopSampling (lies : Lies state.tls (flat 0 blocks))
    (marks : ∀ block ∈ blocks, block.mark ≠ 0) (sent : decode state.sent = some samples) (now : Time) :
    decode (stopSampling now state) = some (samples ++ blocks.map sampleOf) := by
  rw [stopSampling]
  split
  · exact decode_append sent (lies.decode marks)
  · rename_i unused
    have none : blocks = [] := by
      cases blocks with
      | nil => rfl
      | cons block rest =>
        have length := lies.btLen
        rw [flat_cons, Block.marked, List.cons_append, List.length_cons] at length
        omega
    rw [none, sent]
    simp

variable {traces : List (List Address)}

theorem Gathered.conserved (gathered : Gathered traces state samples blocks) (now : Time) :
    Conserved traces (stopSampling now state) :=
  ⟨_, decode_stopSampling gathered.lies gathered.marks gathered.sent now, gathered.counts⟩

theorem Gathered.handled (gathered : Gathered traces state samples blocks)
    (notDeferred : state.tls.deferSampling = false) (sound : Sound state stack) (now : Time) :
    ∃ next, timerHandler stack now state = some next ∧ next.tls.deferSampling = false ∧
      ∃ samples blocks, Gathered (traces ++ [stack.frames]) next samples blocks := by
  have lies := gathered.lies
  have fits : ∀ i < state.tls.countLen, i < bufferSize :=
    fun i used => (lies.countLen ▸ used).trans_le lies.fits
  have whole : stack.frames.filter keptAddress = stack.frames :=
    List.filter_eq_self.mpr sound.kept
  have outcome := stackindex_lastFound state.tls stack.frames
  generalize result : stackindex state.tls stack.frames = index at outcome
  cases outcome with
  | stuck i used fails =>
    obtain ⟨searched, shorter, apart⟩ := (matchesAt_eq_none used (fits i used) _).mp fails
    exact absurd (sound.inside i searched shorter) apart
  | missed =>
    obtain ⟨next, handled, still, added⟩ := timerHandler_missed lies notDeferred result now
    have sample : sampleOf stack.block = (stack.frames, 1) := by
      rw [sampleOf, stack.items_block, whole]
      rfl
    have mark : stack.block.mark ≠ 0 := (by decide : (1 : UInt8) ≠ 0)
    have kept : ∀ frame ∈ stack.block.items, keptAddress frame = true := by
      rw [stack.items_block]
      exact sound.kept
    have one : ∀ trace, counted [(stack.frames, 1)] trace = [stack.frames].count trace := by
      intro trace
      rw [counted_cons, List.count_singleton]
      simp [counted]
    rcases added with ⟨sent, next_lies⟩ | ⟨⟨message, data, sent⟩, next_lies⟩
    · refine ⟨next, handled, still, samples, blocks ++ [stack.block], next_lies, ?_, ?_, ?_, ?_⟩
      · simpa [or_imp, forall_and] using ⟨gathered.marks, mark⟩
      · intro block member
        rcases List.mem_append.mp member with old | new
        · exact gathered.kept block old
        · exact List.mem_singleton.mp new ▸ kept
      · rw [sent]
        exact gathered.sent
      · intro trace
        rw [List.map_append, ← List.append_assoc, counted_append, gathered.counts,
          List.count_append, List.map_singleton, sample, one]
    · refine ⟨next, handled, still, samples ++ blocks.map sampleOf, [stack.block], next_lies, ?_, ?_, ?_, ?_⟩
      · simpa using mark
      · simpa using kept
      · rw [sent]
        exact decode_append gathered.sent (data ▸ lies.decode gathered.marks)
      · intro trace
        rw [counted_append, gathered.counts, List.count_append, List.map_singleton, sample, one]
  | found place used hit last ran =>
    obtain ⟨searched, isPrefix⟩ := (matchesAt_eq_true used (fits place used) _).mp hit
    have same := sound.exact place searched isPrefix fun later searchedLater after found => by
      obtain ⟨_, usedLater, -⟩ := id searchedLater
      have again := (matchesAt_eq_true usedLater (fits later usedLater) _).mpr ⟨searchedLater, found⟩
      simp [last later usedLater after] at again
    obtain ⟨before, block, after, next, rfl, there, below, handled, sent, still, next_lies⟩ :=
      timerHandler_found lies notDeferred searched result now
    have marksAfter : ∀ other ∈ after, other.mark ≠ 0 :=
      fun other member => gathered.marks other (by simp [member])
    rw [lies.zip_data, there, leading_flat marksAfter] at same
    refine ⟨next, handled, still, samples, _, next_lies, remark_marks gathered.marks below, ?_,
      sent ▸ gathered.sent, ?_⟩
    · intro other member
      rcases List.mem_append.mp member with early | late
      · exact gathered.kept other (by simp [early])
      · rcases List.mem_cons.mp late with rfl | late
        · exact gathered.kept block (by simp)
        · exact gathered.kept other (by simp [late])
    · intro trace
      rw [counted_append, counted_remark before after block below, ← Nat.add_assoc,
        ← counted_append, gathered.counts, same, whole, List.count_append,
        List.count_singleton]
      simp [beq_iff_eq]

theorem Gathered.not_conserved {state next : State}
    {now : Time} (gathered : Gathered traces state samples blocks)
    (notDeferred : state.tls.deferSampling = false) (unsound : ¬ Sound state stack)
    (handled : timerHandler stack now state = some next) (stopped : Time) :
    ¬ Conserved (traces ++ [stack.frames]) (stopSampling stopped next) := by
  rintro ⟨decoded, ran, counts⟩
  have lies := gathered.lies
  have fits : ∀ i < state.tls.countLen, i < bufferSize :=
    fun i used => (lies.countLen ▸ used).trans_le lies.fits
  have kept : ∀ frame ∈ stack.frames, keptAddress frame = true := by
    by_contra left
    have missing : counted decoded stack.frames = 0 := by
      refine counted_of_missing fun sample member same => left ?_
      exact same ▸ kept_of_decode ran sample member
    rw [counts, List.count_append, List.count_singleton_self] at missing
    omega
  have outcome := stackindex_lastFound state.tls stack.frames
  generalize result : stackindex state.tls stack.frames = index at outcome
  have inside : index ≠ none → ∀ i, Searched state.tls i →
      state.tls.buffer.bt.toList.drop i <+: stack.frames →
      state.tls.buffer.bt.toList.drop i = stack.frames := by
    intro ended i searched shorter
    by_contra apart
    obtain ⟨_, used, -⟩ := id searched
    have fails := (matchesAt_eq_none used (fits i used) _).mpr ⟨searched, shorter, apart⟩
    cases outcome with
    | stuck place used fails => exact ended rfl
    | missed misses => simp [misses i used] at fails
    | found place usedPlace hit last all => exact all i used fails
  cases outcome with
  | stuck i used fails => simp [timerHandler, notDeferred, result] at handled
  | missed misses =>
    refine unsound ⟨inside (by simp), fun i searched found => ?_, kept⟩
    obtain ⟨_, used, -⟩ := id searched
    have hit := (matchesAt_eq_true used (fits i used) _).mpr ⟨searched, found⟩
    simp [misses i used] at hit
  | found place used hit last all =>
    obtain ⟨searched, isPrefix⟩ := (matchesAt_eq_true used (fits place used) _).mp hit
    obtain ⟨before, block, after, reached, rfl, there, below, ends, sent, -, next_lies⟩ :=
      timerHandler_found lies notDeferred searched result now
    obtain rfl : reached = next := Option.some.inj (ends.symm.trans handled)
    have marksAfter : ∀ other ∈ after, other.mark ≠ 0 :=
      fun other member => gathered.marks other (by simp [member])
    have other : block.items ≠ stack.frames := by
      intro same
      refine unsound ⟨inside (by simp), fun i searchedHere found lastHere => ?_, kept⟩
      obtain ⟨_, usedHere, -⟩ := id searchedHere
      have hitHere := (matchesAt_eq_true usedHere (fits i usedHere) _).mpr ⟨searchedHere, found⟩
      have here : i = place := by
        rcases Nat.lt_trichotomy i place with early | same | late
        · exact absurd isPrefix (lastHere place searched early)
        · exact same
        · simp [last i usedHere late] at hitHere
      rw [lies.zip_data, here, there, leading_flat marksAfter, same]
    have whole : block.items.filter keptAddress = block.items :=
      List.filter_eq_self.mpr (gathered.kept block (by simp))
    have stops := decode_stopSampling next_lies (remark_marks gathered.marks below)
      (sent ▸ gathered.sent) stopped
    obtain rfl := Option.some.inj (ran.symm.trans stops)
    have count := counts block.items
    rw [counted_append, counted_remark before after block below, ← Nat.add_assoc,
      ← counted_append, gathered.counts, whole, if_pos rfl, List.count_append,
      List.count_singleton] at count
    simp [Ne.symm other] at count

def deferring : (deferSampling : Bool) → List Event → Bool
  | deferSampling, [] => deferSampling
  | deferSampling, .timer _ _ :: rest => deferring deferSampling rest
  | _, .startTimer :: rest => deferring false rest
  | _, .stopTimer :: rest => deferring true rest

theorem sampled_append (first second : List Event) : ∀ deferSampling,
    sampled deferSampling (first ++ second) =
      sampled deferSampling first ++ sampled (deferring deferSampling first) second := by
  induction first with
  | nil => simp [sampled, deferring]
  | cons event rest ih =>
    intro deferSampling
    cases event with
    | timer stack now => cases deferSampling <;> simp [sampled, deferring, ih]
    | startTimer => simp [sampled, deferring, ih]
    | stopTimer => simp [sampled, deferring, ih]

theorem deferring_append (first second : List Event) : ∀ deferSampling,
    deferring deferSampling (first ++ second) = deferring (deferring deferSampling first) second := by
  induction first with
  | nil => simp [deferring]
  | cons event rest ih =>
    intro deferSampling
    cases event with
    | timer stack now => simp [deferring, ih]
    | startTimer => simp [deferring, ih]
    | stopTimer => simp [deferring, ih]

def SoundEvent (state : State) : Event → Prop
  | .timer stack _ => state.tls.deferSampling = false → Sound state stack
  | .startTimer => True
  | .stopTimer => True

def Relates (seen : List Event) (state : State) : Prop :=
  state.tls.deferSampling = deferring false seen ∧
    ∃ samples blocks, Gathered (sampled false seen) state samples blocks

theorem Gathered.defer (gathered : Gathered traces state samples blocks) (deferSampling : Bool) :
    Gathered traces { state with tls := { state.tls with deferSampling := deferSampling } } samples blocks :=
  ⟨⟨gathered.lies.bt, gathered.lies.count, gathered.lies.btLen, gathered.lies.countLen⟩,
    gathered.marks, gathered.kept, gathered.sent, gathered.counts⟩

theorem startSampling_relates (header : DataHeader) (interval : UInt64) (now : Time) :
    Relates [] (startSampling header interval now) := by
  have empty : Lies (startSampling header interval now).tls (flat 0 []) := Lies.empty rfl rfl
  refine ⟨rfl, [], [], empty, ?_, ?_, rfl, ?_⟩
  · simp
  · simp
  · simp [counted, sampled]

theorem step_relates {seen : List Event} {event : Event}
    (related : Relates seen state) (sound : SoundEvent state event) :
    ∃ next, step state event = some next ∧ Relates (seen ++ [event]) next := by
  obtain ⟨defers, samples, blocks, gathered⟩ := related
  simp only [Relates, sampled_append, deferring_append, ← defers]
  cases event with
  | timer stack now =>
    cases deferred : state.tls.deferSampling with
    | true =>
      refine ⟨state, by simp [step, timerHandler, deferred], deferred, samples, blocks, ?_⟩
      simpa [sampled] using gathered
    | false =>
      obtain ⟨next, handled, still, gatheredNext⟩ :=
        gathered.handled deferred (sound deferred) now
      exact ⟨next, handled, still, gatheredNext⟩
  | startTimer =>
    exact ⟨_, rfl, rfl, samples, blocks, by simpa [sampled] using gathered.defer false⟩
  | stopTimer =>
    exact ⟨_, rfl, rfl, samples, blocks, by simpa [sampled] using gathered.defer true⟩

theorem step_broken {seen : List Event} {state next : State} {event : Event}
    (related : Relates seen state) (unsound : ¬ SoundEvent state event)
    (stepped : step state event = some next) (stopped : Time) :
    ¬ Conserved (sampled false (seen ++ [event])) (stopSampling stopped next) := by
  obtain ⟨defers, samples, blocks, gathered⟩ := related
  cases event with
  | timer stack now =>
    obtain ⟨notDeferred, unsound⟩ := Classical.not_imp.mp unsound
    rw [sampled_append, ← defers, notDeferred]
    exact gathered.not_conserved notDeferred unsound stepped stopped
  | startTimer => exact absurd trivial unsound
  | stopTimer => exact absurd trivial unsound

/-- The messages give each stack the count of its samples, wherever sampling is stopped,
if and only if each sampled stack is found where it is stored and nowhere else. -/
theorem decoded_exactly_iff (header : DataHeader) (interval : UInt64) (started : Time)
    (events : List Event) :
    (∀ part, part <+: events → ∃ state,
      Runs.run step (startSampling header interval started) part = some state ∧
        ∀ stopped, Conserved (sampled false part) (stopSampling stopped state)) ↔
      Runs.Along SoundEvent step (startSampling header interval started) events := by
  have whole := @Runs.along_iff_prefixes State Event SoundEvent step
    (fun seen state => ∀ stopped, Conserved (sampled false seen) (stopSampling stopped state))
    Relates
    (fun _ _ related stopped =>
      let ⟨_, _, _, gathered⟩ := related
      gathered.conserved stopped)
    (fun _ _ _ related sound => step_relates related sound)
    (fun _ _ _ _ related unsound stepped all => step_broken related unsound stepped 0 (all 0))
    events [] _ (startSampling_relates header interval started)
  simpa using whole

def sampleHeader : DataHeader := ⟨0, 1, "host", 7, 7, 0, 0, 0, 0⟩

def caller : CallStack := ⟨[16, 32], by decide, by decide⟩

def bottom : CallStack := ⟨[16], by decide, by decide⟩

theorem beginning_counted_as_longer : ∃ final, Runs.run step (startSampling sampleHeader 10 1)
      [.timer caller 2, .timer bottom 3] = some final ∧
    ¬ Conserved (sampled false [.timer caller 2, .timer bottom 3]) (stopSampling 4 final) := by
  have evaluated : (Runs.run step (startSampling sampleHeader 10 1)
      [.timer caller 2, .timer bottom 3]).map (fun final => decode (stopSampling 4 final)) =
        some (some [([16, 32], 2)]) := by
    decide +kernel
  obtain ⟨final, ran, decoded⟩ := Option.map_eq_some_iff.mp evaluated
  refine ⟨final, ran, ?_⟩
  rintro ⟨samples, again, counts⟩
  obtain rfl := Option.some.inj (again.symm.trans decoded)
  exact absurd (counts [16]) (by decide)

end OpenSpeedShop.Usertime
