import OpenSpeedShop.Runtime.PCData

/-!
The stack traces of the current thread and of a signal context, as on x86-64 Linux. What
libunwind finds are the frames of a context, the innermost first.
-/

namespace OpenSpeedShop

namespace StackTrace

structure Frame where
  pc : UInt64
  isSignalFrame : Bool
  /-- `monitor_in_main_start_func_wide` or `monitor_in_start_func_wide` -/
  inStartFunc : Bool
deriving DecidableEq

structure Cursor where
  frame : Frame
  older : List Frame
deriving DecidableEq

def Cursor.frames (cursor : Cursor) : List Frame := cursor.frame :: cursor.older

def unwStep (cursor : Cursor) : Int × Cursor :=
  match cursor.older with
  | [] => (0, cursor)
  | next :: older => (1, ⟨next, older⟩)

structure Trace (maxFrames : UInt32) where
  size : UInt32
  stacktrace : Vector UInt64 maxFrames.toNat
deriving DecidableEq

variable {maxFrames : UInt32}

def unwBacktrace (cursor : Cursor) (maxFrames : UInt32) : List UInt64 :=
  (cursor.frames.map Frame.pc).take maxFrames.toNat

/-- `for(i = skip_frames; i < size; i++) stacktrace[i - skip_frames] = framebuf[i]` -/
def copyFrames (framebuf : List UInt64) (skipFrames : Nat) : (count i : Nat) →
    Vector UInt64 maxFrames.toNat → Option (Vector UInt64 maxFrames.toNat)
  | 0, _, stacktrace => some stacktrace
  | count + 1, i, stacktrace => do
      let frame ← framebuf[i]?
      let stacktrace ← store? stacktrace (i - skipFrames) frame
      copyFrames framebuf skipFrames count (i + 1) stacktrace

def framesToSkip (skipSignalFrames : Bool) (skipFrames : UInt32) : UInt32 :=
  if skipFrames = 0 ∧ skipSignalFrames then 4 else skipFrames

def getStackTrace (current : Cursor) (skipSignalFrames : Bool) (skipFrames : UInt32)
    (stacktrace : Vector UInt64 maxFrames.toNat) : Option (Trace maxFrames) := do
  let framebuf := unwBacktrace current maxFrames
  let size := UInt32.ofNat framebuf.length
  let skipFrames := framesToSkip skipSignalFrames skipFrames
  let stacktrace ← copyFrames framebuf skipFrames.toNat (framebuf.length - skipFrames.toNat)
    skipFrames.toNat stacktrace
  return ⟨size - skipFrames, stacktrace⟩

/-- `while(!unw_is_signal_frame(&cursor)) unw_step(&cursor)` -/
def skipToSignalFrame : (fuel : Nat) → Cursor → Option Cursor
  | 0, _ => none
  | fuel + 1, cursor =>
    if cursor.frame.isSignalFrame then some cursor else skipToSignalFrame fuel (unwStep cursor).2

def unwind (offline : Bool) : (fuel : Nat) → Cursor → (skipFrames : UInt32) →
    Trace maxFrames → Option (Trace maxFrames)
  | 0, _, _, _ => none
  | fuel + 1, cursor, skipFrames, trace =>
    let next := fun (skipFrames : UInt32) (trace : Trace maxFrames) =>
      let (retval, cursor) := unwStep cursor
      if retval ≤ 0 then some trace else unwind offline fuel cursor skipFrames trace
    if skipFrames > 0 then next (skipFrames - 1) trace
    else if trace.size = maxFrames then some trace
    else if offline && cursor.frame.inStartFunc then some trace
    else do
      let stacktrace ← store? trace.stacktrace trace.size.toNat cursor.frame.pc
      next skipFrames ⟨trace.size + 1, stacktrace⟩

def getStackTraceFromContext (offline : Bool) (fuel : Nat) (current : Cursor)
    (signalContext : Option Cursor) (skipSignalFrames : Bool) (skipFrames : UInt32)
    (stacktrace : Vector UInt64 maxFrames.toNat) : Option (Trace maxFrames) := do
  let cursor := signalContext.getD current
  let skipSignalFrames := if signalContext.isSome then false else skipSignalFrames
  let cursor ← if skipSignalFrames then skipToSignalFrame fuel cursor else some cursor
  unwind offline fuel cursor skipFrames ⟨0, stacktrace⟩

end StackTrace

/-!
Both ways to take a stack trace give the captured frames behind the skipped ones: one
as long as there are as many frames, the other one when it ends.
-/

namespace StackTrace

variable {maxFrames : UInt32}

structure Gives (wanted : List UInt64) (trace : Trace maxFrames) : Prop where
  within : trace.size.toNat ≤ maxFrames.toNat
  frames : trace.stacktrace.toList.take trace.size.toNat = wanted.take maxFrames.toNat

theorem copyFrames_eq {framebuf : List UInt64} {skipFrames : Nat}
    (fits : framebuf.length ≤ maxFrames.toNat) (count : Nat) :
    ∀ {i : Nat} {stacktrace : Vector UInt64 maxFrames.toNat}, skipFrames ≤ i → i + count = framebuf.length →
      stacktrace.toList.take (i - skipFrames) = (framebuf.drop skipFrames).take (i - skipFrames) →
      ∃ copied, copyFrames framebuf skipFrames count i stacktrace = some copied ∧
        copied.toList.take (framebuf.length - skipFrames) = framebuf.drop skipFrames := by
  induction count with
  | zero =>
    intro i stacktrace begun ends soFar
    refine ⟨stacktrace, rfl, ?_⟩
    rw [← ends, Nat.add_zero, soFar]
    apply List.take_of_length_le
    rw [List.length_drop]
    omega
  | succ count ih =>
    intro i stacktrace begun ends soFar
    have inside : i < framebuf.length := by omega
    have room : i - skipFrames < maxFrames.toNat := by omega
    have next : i + 1 - skipFrames = i - skipFrames + 1 := by omega
    obtain ⟨copied, ran, all⟩ := @ih (i + 1)
      (stacktrace.set (i - skipFrames) framebuf[i] room) (by omega) (by omega) (by
        have reached : skipFrames + (i - skipFrames) = i := by omega
        rw [next, toList_take_set room, soFar,
          List.take_succ_eq_append_getElem (by rw [List.length_drop]; omega)]
        simp [reached])
    refine ⟨copied, ?_, all⟩
    rw [copyFrames, List.getElem?_eq_getElem inside, Option.bind_eq_bind, Option.bind_some,
      store?_eq_some room]
    exact ran

theorem length_unwBacktrace_le (current : Cursor) (maxFrames : UInt32) :
    (unwBacktrace current maxFrames).length ≤ maxFrames.toNat :=
  List.length_take_le _ _

theorem getStackTrace_total (current : Cursor) (skipSignalFrames : Bool) (skipFrames : UInt32)
    (stacktrace : Vector UInt64 maxFrames.toNat) :
    ∃ trace, getStackTrace current skipSignalFrames skipFrames stacktrace = some trace ∧
      trace.size = UInt32.ofNat (unwBacktrace current maxFrames).length -
        framesToSkip skipSignalFrames skipFrames ∧
      trace.stacktrace.toList.take ((unwBacktrace current maxFrames).length -
          (framesToSkip skipSignalFrames skipFrames).toNat) =
        (unwBacktrace current maxFrames).drop (framesToSkip skipSignalFrames skipFrames).toNat := by
  have fits := length_unwBacktrace_le current maxFrames
  by_cases enough : (framesToSkip skipSignalFrames skipFrames).toNat ≤ (unwBacktrace current maxFrames).length
  · obtain ⟨copied, ran, frames⟩ := @copyFrames_eq maxFrames _
      (framesToSkip skipSignalFrames skipFrames).toNat fits
      ((unwBacktrace current maxFrames).length -
        (framesToSkip skipSignalFrames skipFrames).toNat) _ stacktrace (Nat.le_refl _)
      (by omega) (by rw [Nat.sub_self, List.take_zero, List.take_zero])
    refine ⟨⟨_, copied⟩, ?_, rfl, frames⟩
    simp only [getStackTrace, ran, Option.bind_eq_bind, Option.bind_some]
    rfl
  · have nothing : (unwBacktrace current maxFrames).length -
        (framesToSkip skipSignalFrames skipFrames).toNat = 0 := by omega
    refine ⟨⟨_, stacktrace⟩, ?_, rfl, ?_⟩
    · simp only [getStackTrace, nothing, copyFrames, Option.bind_eq_bind, Option.bind_some]
      rfl
    · rw [nothing, List.take_zero, List.drop_eq_nil_of_le (by omega)]

theorem getStackTrace_gives_iff (current : Cursor) (skipSignalFrames : Bool)
    (skipFrames : UInt32) (stacktrace : Vector UInt64 maxFrames.toNat) :
    (∃ trace, getStackTrace current skipSignalFrames skipFrames stacktrace = some trace ∧
      Gives ((unwBacktrace current maxFrames).drop (framesToSkip skipSignalFrames skipFrames).toNat) trace) ↔
      (framesToSkip skipSignalFrames skipFrames).toNat ≤ (unwBacktrace current maxFrames).length := by
  obtain ⟨trace, ran, size, frames⟩ :=
    getStackTrace_total current skipSignalFrames skipFrames stacktrace
  have fits := length_unwBacktrace_le current maxFrames
  have bound := maxFrames.toNat_lt
  have skipBound := (framesToSkip skipSignalFrames skipFrames).toNat_lt
  have captured : (UInt32.ofNat (unwBacktrace current maxFrames).length).toNat =
      (unwBacktrace current maxFrames).length := by
    rw [UInt32.toNat_ofNat']
    exact Nat.mod_eq_of_lt (by omega)
  have short : ((unwBacktrace current maxFrames).drop
      (framesToSkip skipSignalFrames skipFrames).toNat).take maxFrames.toNat =
        (unwBacktrace current maxFrames).drop (framesToSkip skipSignalFrames skipFrames).toNat := by
    apply List.take_of_length_le
    rw [List.length_drop]
    omega
  constructor
  · rintro ⟨other, same, gives⟩
    obtain rfl := Option.some.inj (ran.symm.trans same)
    by_contra fewer
    have none : (unwBacktrace current maxFrames).drop (framesToSkip skipSignalFrames skipFrames).toNat = [] :=
      List.drop_eq_nil_of_le (by omega)
    have length := congrArg List.length gives.frames
    have within := gives.within
    rw [none, List.take_nil, List.length_take, Vector.length_toList, List.length_nil,
      Nat.min_eq_left within, size, UInt32.toNat_sub, captured] at length
    omega
  · intro enough
    have exactSize : trace.size.toNat = (unwBacktrace current maxFrames).length -
        (framesToSkip skipSignalFrames skipFrames).toNat := by
      rw [size, UInt32.toNat_sub_of_le _ _ (UInt32.le_iff_toNat_le.mpr (by omega)), captured]
    refine ⟨trace, ran, by omega, ?_⟩
    rw [exactSize, frames, short]

def wantedFrames (offline : Bool) (skipFrames : Nat) (frames : List Frame) : List UInt64 :=
  ((frames.drop skipFrames).takeWhile fun frame => !(offline && frame.inStartFunc)).map Frame.pc

structure Stores (stored : List UInt64) (trace : Trace maxFrames) : Prop where
  length : stored.length = trace.size.toNat
  fits : trace.size.toNat ≤ maxFrames.toNat
  frames : trace.stacktrace.toList.take trace.size.toNat = stored

variable {trace : Trace maxFrames}

theorem Stores.gives {stored wanted : List UInt64}
    (stores : Stores stored trace) (same : wanted.take maxFrames.toNat = stored) : Gives wanted trace where
  within := stores.fits
  frames := stores.frames.trans same.symm

variable {stored : List UInt64}

theorem Stores.done (stores : Stores stored trace) : Gives (stored ++ []) trace := by
  refine stores.gives ?_
  rw [List.append_nil]
  exact List.take_of_length_le (stores.length ▸ stores.fits)

theorem Stores.push (stores : Stores stored trace) (room : trace.size.toNat < maxFrames.toNat) (pc : UInt64) :
    Stores (stored ++ [pc]) (⟨trace.size + 1,
      trace.stacktrace.set trace.size.toNat pc room⟩ : Trace maxFrames) := by
  have bound := maxFrames.toNat_lt
  have longer : (trace.size + 1).toNat = trace.size.toNat + 1 := by
    rw [UInt32.toNat_add]
    simp only [UInt32.reduceToNat]
    omega
  refine ⟨?_, ?_, ?_⟩
  · rw [longer, List.length_append, stores.length, List.length_singleton]
  · rw [longer]
    exact room
  · rw [longer, toList_take_set room, stores.frames]

def stepOn (offline : Bool) (fuel : Nat) (cursor : Cursor) (skipFrames : UInt32)
    (trace : Trace maxFrames) : Option (Trace maxFrames) :=
  if (unwStep cursor).1 ≤ 0 then some trace
  else unwind offline fuel (unwStep cursor).2 skipFrames trace

theorem unwind_succ (offline : Bool) (fuel : Nat) (cursor : Cursor) (skipFrames : UInt32)
    (trace : Trace maxFrames) : unwind offline (fuel + 1) cursor skipFrames trace =
      if skipFrames > 0 then stepOn offline fuel cursor (skipFrames - 1) trace
      else if trace.size = maxFrames then some trace
      else if offline && cursor.frame.inStartFunc then some trace
      else (store? trace.stacktrace trace.size.toNat cursor.frame.pc).bind fun stacktrace =>
        stepOn offline fuel cursor skipFrames ⟨trace.size + 1, stacktrace⟩ := rfl

theorem unwind_round {offline : Bool} {fuel : Nat} {frame : Frame} {older : List Frame}
    (onward : ∀ {skipFrames : UInt32} {trace : Trace maxFrames} {stored : List UInt64},
      Stores stored trace → ∃ final, stepOn offline fuel ⟨frame, older⟩ skipFrames trace = some final ∧
          Gives (stored ++ wantedFrames offline skipFrames.toNat older) final) {skipFrames : UInt32}
    (stores : Stores stored trace) :
    ∃ final, unwind offline (fuel + 1) ⟨frame, older⟩ skipFrames trace = some final ∧
      Gives (stored ++ wantedFrames offline skipFrames.toNat (frame :: older)) final := by
  rw [unwind_succ]
  by_cases skips : skipFrames > 0
  · have positive : 0 < skipFrames.toNat := by
      simpa [UInt32.lt_iff_toNat_lt] using skips
    have atLeastOne : 1 ≤ skipFrames := UInt32.le_iff_toNat_le.mpr positive
    have fewer : skipFrames.toNat = (skipFrames - 1).toNat + 1 := by
      rw [UInt32.toNat_sub_of_le _ _ atLeastOne]
      exact (Nat.sub_add_cancel positive).symm
    obtain ⟨final, ran, gives⟩ := @onward (skipFrames - 1) trace stored stores
    refine ⟨final, by rw [if_pos skips, ran], ?_⟩
    rwa [wantedFrames, fewer, List.drop_succ_cons]
  · have none : skipFrames = 0 := by simpa using skips
    subst none
    rw [if_neg skips]
    by_cases full : trace.size = maxFrames
    · refine ⟨trace, if_pos full, stores.gives ?_⟩
      rw [List.take_append_of_le_length (by rw [stores.length, full]),
        List.take_of_length_le (by rw [stores.length, full])]
    · have room : trace.size.toNat < maxFrames.toNat :=
        lt_of_le_of_ne stores.fits fun same => full (UInt32.toNat_inj.mp same)
      rw [if_neg full]
      cases stops : offline && frame.inStartFunc with
      | true =>
        refine ⟨trace, if_pos rfl, ?_⟩
        have nothing : wantedFrames offline (0 : UInt32).toNat (frame :: older) = [] := by
          change ((frame :: older).takeWhile _).map _ = []
          rw [List.takeWhile_cons, stops]
          rfl
        rw [nothing]
        exact stores.done
      | false =>
        obtain ⟨final, ran, gives⟩ := @onward 0 _ _ (stores.push room frame.pc)
        refine ⟨final, by rw [if_neg (by simp), store?_eq_some room, Option.bind_some, ran], ?_⟩
        have first : wantedFrames offline (0 : UInt32).toNat (frame :: older) =
            frame.pc :: wantedFrames offline (0 : UInt32).toNat older := by
          change ((frame :: older).takeWhile _).map _ = _
          rw [List.takeWhile_cons, stops]
          rfl
        rw [first, List.append_cons]
        exact gives

theorem unwind_gives (offline : Bool) (older : List Frame) :
    ∀ {fuel : Nat} {frame : Frame} {skipFrames : UInt32} {trace : Trace maxFrames}
      {stored : List UInt64}, Stores stored trace →
      ∃ final, unwind offline (older.length + 1 + fuel) ⟨frame, older⟩ skipFrames trace = some final ∧
        Gives (stored ++ wantedFrames offline skipFrames.toNat (frame :: older)) final := by
  induction older with
  | nil =>
    intro fuel frame skipFrames trace stored stores
    rw [List.length_nil, Nat.add_right_comm]
    refine unwind_round ?_ stores
    intro skipFrames trace stored stores
    refine ⟨trace, if_pos (Int.le_refl 0), ?_⟩
    rw [wantedFrames, List.drop_nil]
    exact stores.done
  | cons next rest ih =>
    intro fuel frame skipFrames trace stored stores
    rw [List.length_cons, Nat.add_right_comm]
    refine unwind_round ?_ stores
    intro skipFrames trace stored stores
    exact ih stores

theorem skipToSignalFrame_eq {older : List Frame} : ∀ {frame : Frame},
    (∃ found ∈ frame :: older, found.isSignalFrame = true) → ∃ cursor : Cursor,
      (∀ fuel, skipToSignalFrame (older.length + 1 + fuel) ⟨frame, older⟩ = some cursor) ∧
        cursor.frames = (frame :: older).dropWhile fun other => !other.isSignalFrame := by
  induction older with
  | nil =>
    rintro frame ⟨found, member, signal⟩
    obtain rfl := List.mem_singleton.mp member
    refine ⟨⟨found, []⟩, fun fuel => ?_, ?_⟩
    · rw [List.length_nil, Nat.add_right_comm, skipToSignalFrame, if_pos signal]
    · simp [Cursor.frames, signal]
  | cons next rest ih =>
    rintro frame ⟨found, member, signal⟩
    by_cases here : frame.isSignalFrame = true
    · refine ⟨⟨frame, next :: rest⟩, fun fuel => ?_, ?_⟩
      · rw [Nat.add_right_comm, skipToSignalFrame, if_pos here]
      · simp [Cursor.frames, here]
    · have later : found ∈ next :: rest := by
        rcases List.mem_cons.mp member with rfl | later
        · exact absurd signal here
        · exact later
      obtain ⟨cursor, ran, frames⟩ := ih ⟨found, later, signal⟩
      refine ⟨cursor, fun fuel => ?_, ?_⟩
      · rw [List.length_cons, Nat.add_right_comm, skipToSignalFrame, if_neg here]
        exact ran fuel
      · rw [frames]
        exact (List.dropWhile_cons_of_pos (by simpa using here)).symm

theorem skipToSignalFrame_never {fuel : Nat} : ∀ {cursor : Cursor},
    (∀ frame ∈ cursor.frames, frame.isSignalFrame = false) → skipToSignalFrame fuel cursor = none := by
  induction fuel with
  | zero => exact fun _ => rfl
  | succ fuel ih =>
    rintro ⟨frame, older⟩ never
    have here := never frame List.mem_cons_self
    rw [skipToSignalFrame, if_neg (by simp [here])]
    apply ih
    cases older with
    | nil => exact never
    | cons next rest =>
      intro other member
      exact never other (List.mem_cons_of_mem _ member)

def capturedFrames (current : Cursor) (signalContext : Option Cursor) (skipSignalFrames : Bool) : List Frame :=
  match signalContext with
  | some context => context.frames
  | none =>
    if skipSignalFrames then current.frames.dropWhile fun frame => !frame.isSignalFrame
    else current.frames

theorem stores_nil (stacktrace : Vector UInt64 maxFrames.toNat) :
    Stores [] (⟨0, stacktrace⟩ : Trace maxFrames) := ⟨rfl, Nat.zero_le _, rfl⟩

theorem getStackTraceFromContext_gives_iff (offline : Bool) (current : Cursor)
    (signalContext : Option Cursor) (skipSignalFrames : Bool) (skipFrames : UInt32)
    (stacktrace : Vector UInt64 maxFrames.toNat) :
    (∃ fuel trace, getStackTraceFromContext offline fuel current signalContext skipSignalFrames
        skipFrames stacktrace = some trace ∧ Gives (wantedFrames offline skipFrames.toNat
        (capturedFrames current signalContext skipSignalFrames)) trace) ↔
      (signalContext = none → skipSignalFrames = true →
        ∃ frame ∈ current.frames, frame.isSignalFrame = true) := by
  have unwinds : ∀ cursor : Cursor, ∃ trace, unwind offline (cursor.older.length + 1) cursor
      skipFrames ⟨0, stacktrace⟩ = some trace ∧
        Gives (wantedFrames offline skipFrames.toNat cursor.frames) trace :=
    fun cursor => @unwind_gives _ offline cursor.older 0 cursor.frame _ _ _ (stores_nil stacktrace)
  cases signalContext with
  | some context =>
    obtain ⟨trace, ran, gives⟩ := unwinds context
    exact ⟨fun _ contrary => (by cases contrary), fun _ => ⟨context.older.length + 1, trace, ran, gives⟩⟩
  | none =>
    cases skipSignalFrames with
    | false =>
      obtain ⟨trace, ran, gives⟩ := unwinds current
      exact ⟨fun _ _ contrary => (by cases contrary), fun _ => ⟨current.older.length + 1, trace, ran, gives⟩⟩
    | true =>
      constructor
      · rintro ⟨fuel, trace, ran, _⟩ _ _
        by_contra never
        have stuck : skipToSignalFrame fuel current = none := by
          refine skipToSignalFrame_never fun frame member => ?_
          by_contra signal
          exact never ⟨frame, member, by simpa using signal⟩
        have stays : (skipToSignalFrame fuel current).bind (fun cursor =>
            unwind offline fuel cursor skipFrames ⟨0, stacktrace⟩) = some trace := ran
        rw [stuck] at stays
        cases stays
      · intro signals
        obtain ⟨cursor, skipped, frames⟩ :=
          @skipToSignalFrame_eq current.older current.frame (signals rfl rfl)
        obtain ⟨trace, ran, gives⟩ := @unwind_gives _ offline cursor.older
          (current.older.length + 1) cursor.frame skipFrames _ _ (stores_nil stacktrace)
        refine ⟨cursor.older.length + 1 + (current.older.length + 1), trace, ?_, ?_⟩
        · change (skipToSignalFrame _ current).bind _ = _
          have reached := skipped (cursor.older.length + 1)
          rw [Nat.add_comm (cursor.older.length + 1)]
          change skipToSignalFrame _ current = _ at reached
          rw [reached, Option.bind_some, Nat.add_comm]
          exact ran
        · rw [List.nil_append] at gives
          rw [capturedFrames, if_pos rfl, Cursor.frames, ← frames]
          exact gives

/-- Both calls give the captured frames behind the skipped ones: the first one when there
are as many, the second one when it need not look for a signal frame in vain. -/
theorem stackTraces_give_iff (offline : Bool) (current : Cursor) (signalContext : Option Cursor)
    (skipSignalFrames : Bool) (skipFrames : UInt32)
    (stacktrace : Vector UInt64 maxFrames.toNat) :
    ((∃ trace, getStackTrace current skipSignalFrames skipFrames stacktrace = some trace ∧
        Gives ((unwBacktrace current maxFrames).drop (framesToSkip skipSignalFrames skipFrames).toNat) trace) ∧
      ∃ fuel trace, getStackTraceFromContext offline fuel current signalContext skipSignalFrames
          skipFrames stacktrace = some trace ∧
        Gives (wantedFrames offline skipFrames.toNat
          (capturedFrames current signalContext skipSignalFrames)) trace) ↔
      (framesToSkip skipSignalFrames skipFrames).toNat ≤ (unwBacktrace current maxFrames).length ∧
        (signalContext = none → skipSignalFrames = true →
          ∃ frame ∈ current.frames, frame.isSignalFrame = true) :=
  and_congr (getStackTrace_gives_iff current skipSignalFrames skipFrames stacktrace)
    (getStackTraceFromContext_gives_iff offline current signalContext skipSignalFrames skipFrames stacktrace)

theorem size_underflows : ¬ ∃ trace, getStackTrace ⟨⟨16, false, false⟩, [⟨32, false, false⟩]⟩ false 6
      (Vector.replicate (4 : UInt32).toNat 0) = some trace ∧
    trace.size ≤ 4 := by
  rintro ⟨trace, ran, within⟩
  have size : (getStackTrace ⟨⟨16, false, false⟩, [⟨32, false, false⟩]⟩ false 6
      (Vector.replicate (4 : UInt32).toNat 0)).map Trace.size = some 4294967292 := by
    decide +kernel
  rw [ran] at size
  rw [Option.map_some, Option.some.injEq] at size
  rw [size] at within
  exact absurd within (by decide)

end StackTrace

end OpenSpeedShop
