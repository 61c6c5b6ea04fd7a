import OpenSpeedShop.Cli.CmdControlCore

/-!
Commands are taken from the queue in order. The input thread waits for its own command in the runs in
which the thread that wakes it executed the command taken last.
-/

namespace OpenSpeedShop.CmdControl

open List (append_nil mem_singleton mem_append_left mem_cons_self pairwise_append mem_append
  not_mem_nil mem_append_right)

def State.Awaited (state : State) (cmd : Nat) : Prop :=
  ∃ command, state.commands[cmd]? = some command ∧
    (serializeExecution state.isOfflineCmd command || command.type = .playback) = true

def State.Done (state : State) (cmd : Nat) : Prop :=
  cmd ∈ state.completed ∨ cmd ∈ state.aborted

/-- The awaited commands that were returned for are done, and commands begin in the
order in which they were queued. -/
structure Sound (state : State) : Prop where
  finished : ∀ cmd ∈ state.returned, state.Awaited cmd → state.Done cmd
  inOrder : state.begun.Pairwise (· < ·)

/-- The input thread, if it waits for a command, is woken by the thread that took the
last command, or its own one was aborted. -/
def State.WokenByLast (state : State) (thisCmdIs : Nat) : Prop :=
  ∀ cmd, state.main = .waiting cmd → state.Awaited cmd →
    state.dispatch = [] ∧ thisCmdIs = state.cmdsExecuted ∨ cmd ∈ state.aborted

def State.TakesInTurn (state : State) : Prop :=
  state.readyForNextCmd = true → state.dispatch ≠ [] →
    ∀ (thread cmd thisCmdIs : Nat), state.threads[thread]? ≠ some (.picked cmd thisCmdIs)

def Orderly (state : State) : Input → Prop
  | .executeCmd command _ _ =>
    (serializeExecution state.isOfflineCmd command || command.type = .playback) = true → state.shutDown = false
  | .ext thread =>
    match state.threads[thread]? with
    | some .created => state.TakesInTurn
    | some .awake => state.shutDown = false → state.TakesInTurn
    | some (.executed _ thisCmdIs) => state.shutDown = false → state.TakesInTurn ∧
        (state.mainWaiting = true → state.dispatch.length ≤ state.mainWaitingCount →
          state.WokenByLast thisCmdIs)
    | some (.terminating _ thisCmdIs) => state.mainWaiting = true → state.WokenByLast thisCmdIs
    | _ => True
  | _ => True

def Thread.work : Thread → Option (Nat × Nat)
  | .picked cmd thisCmdIs | .executing cmd thisCmdIs | .executed cmd thisCmdIs
  | .terminating cmd thisCmdIs => some (cmd, thisCmdIs)
  | _ => none

structure Numbered (state : State) : Prop where
  ordered : (state.picked ++ state.dispatch).Pairwise (· < ·)
  bounded : ∀ cmd ∈ state.picked ++ state.dispatch, cmd < state.commands.length
  counted : state.cmdsExecuted = state.picked.length
  number : ∀ (thread : Nat) value cmd thisCmdIs, state.threads[thread]? = some value →
    value.work = some (cmd, thisCmdIs) → 0 < thisCmdIs ∧ state.picked[thisCmdIs - 1]? = some cmd

structure Inv (state : State) : Prop where
  sound : Sound state
  numbered : Numbered state
  distinct : ∀ (first second : Nat) firstValue secondValue firstCmd secondCmd thisCmdIs,
    state.threads[first]? = some firstValue → state.threads[second]? = some secondValue →
    firstValue.work = some (firstCmd, thisCmdIs) →
    secondValue.work = some (secondCmd, thisCmdIs) → first = second
  starting : ∀ (thread : Nat) cmd thisCmdIs,
    state.threads[thread]? = some (.picked cmd thisCmdIs) →
    thisCmdIs = state.cmdsExecuted ∧ cmd ∉ state.begun
  begunTaken : ∀ cmd ∈ state.begun, cmd ∈ state.picked
  executed : ∀ (thread : Nat) cmd thisCmdIs,
    state.threads[thread]? = some (.executed cmd thisCmdIs) ∨
    state.threads[thread]? = some (.terminating cmd thisCmdIs) → state.Done cmd
  waits : ∀ cmd, state.main = .waiting cmd → cmd + 1 = state.commands.length ∧
    (cmd ∈ state.dispatch ∨ cmd ∈ state.picked ∨ cmd ∈ state.aborted)
  returning : ∀ cmd, state.main = .returning cmd → cmd < state.commands.length ∧
    (state.Awaited cmd → state.Done cmd)
  known : ∀ cmd ∈ state.returned, cmd < state.commands.length

theorem initial_inv (isOfflineCmd : Bool) (maxAsyncCommands : Nat) :
    Inv (initial isOfflineCmd maxAsyncCommands) where
  sound := ⟨fun _ member => absurd member not_mem_nil, List.Pairwise.nil⟩
  numbered := ⟨List.Pairwise.nil, fun _ member => absurd member not_mem_nil, rfl,
    fun _ _ _ _ there => by cases there⟩
  distinct _ _ _ _ _ _ _ there := by cases there
  starting _ _ _ there := by cases there
  begunTaken _ member := absurd member not_mem_nil
  executed _ _ _ there := by rcases there with there | there <;> cases there
  waits _ same := by cases same
  returning _ same := by cases same
  known _ member := absurd member not_mem_nil

def Mild (before after : List Thread) : Prop :=
  ∀ (thread : Nat) (value : Thread), after[thread]? = some value → value.work ≠ none →
    before[thread]? = some value

theorem Mild.refl (threads : List Thread) : Mild threads threads := fun _ _ there _ => there

theorem mild_set (threads : List Thread) (thread : Nat) {value : Thread}
    (idle : value.work = none) : Mild threads (threads.set thread value) := by
  intro other found there working
  rw [List.getElem?_set] at there
  split at there
  · split at there
    · obtain rfl := Option.some.inj there
      exact absurd idle working
    · cases there
  · exact there

theorem mild_append (threads : List Thread) : Mild threads (threads ++ [.created]) := by
  intro thread value there working
  rcases Nat.lt_or_ge thread threads.length with inside | outside
  · rwa [List.getElem?_append_left inside] at there
  · rw [List.getElem?_append_right outside] at there
    have created : value ∈ [Thread.created] := List.mem_of_getElem? there
    rw [mem_singleton.mp created] at working
    exact absurd rfl working

theorem mild_wake (threads : List Thread) :
    Mild threads (threads.map fun other => if other = .waiting then .awake else other) := by
  intro thread value there working
  rw [List.getElem?_map] at there
  obtain ⟨before, known, same⟩ := Option.map_eq_some_iff.mp there
  split at same
  · subst same
    exact absurd rfl working
  · rw [← same]
    exact known

theorem signal_mild {state next : State} {woken : Option Nat} (signalled : signal woken state = some next) :
    ∃ threads, Mild state.threads threads ∧ next = { state with threads := threads } := by
  unfold signal at signalled
  split at signalled
  · split at signalled
    · obtain rfl := Option.some.inj signalled
      exact ⟨_, mild_set _ _ rfl, rfl⟩
    · cases signalled
  · split at signalled
    · cases signalled
    · obtain rfl := Option.some.inj signalled
      exact ⟨_, Mild.refl _, rfl⟩

theorem getElem?_set_cases {threads : List Thread} {thread other : Nat} {value found : Thread}
    (there : (threads.set thread value)[other]? = some found) :
    other = thread ∧ found = value ∨ other ≠ thread ∧ threads[other]? = some found := by
  rw [List.getElem?_set] at there
  split at there
  · rename_i same
    split at there
    · exact .inl ⟨same.symm, (Option.some.inj there).symm⟩
    · cases there
  · rename_i apart
    exact .inr ⟨fun same => apart same.symm, there⟩

section

variable {state : State}

theorem Numbered.mild (numbered : Numbered state) {threads : List Thread}
    (mild : Mild state.threads threads) (maxAsyncCommands : Nat) (readyForNextCmd : Bool)
    (extFree extAllocated : Nat) (mainWaiting : Bool) (mainWaitingCount : Nat) (shutDown : Bool) :
    Numbered { state with
      threads := threads, maxAsyncCommands := maxAsyncCommands
      readyForNextCmd := readyForNextCmd, extFree := extFree, extAllocated := extAllocated
      mainWaiting := mainWaiting, mainWaitingCount := mainWaitingCount, shutDown := shutDown } where
  ordered := numbered.ordered
  bounded := numbered.bounded
  counted := numbered.counted
  number thread value cmd thisCmdIs there working :=
    numbered.number thread value cmd thisCmdIs
      (mild thread value there (by rw [working]; exact Option.some_ne_none _)) working

theorem Inv.mild (inv : Inv state) {threads : List Thread}
    (mild : Mild state.threads threads) (maxAsyncCommands : Nat) (readyForNextCmd : Bool)
    (extFree extAllocated : Nat) (mainWaiting : Bool) (mainWaitingCount : Nat) (shutDown : Bool) :
    Inv { state with
      threads := threads, maxAsyncCommands := maxAsyncCommands
      readyForNextCmd := readyForNextCmd, extFree := extFree, extAllocated := extAllocated
      mainWaiting := mainWaiting, mainWaitingCount := mainWaitingCount, shutDown := shutDown } where
  sound := ⟨inv.sound.finished, inv.sound.inOrder⟩
  numbered := inv.numbered.mild mild _ _ _ _ _ _ _
  distinct first second firstValue secondValue firstCmd secondCmd thisCmdIs there there' works
      works' :=
    inv.distinct first second firstValue secondValue firstCmd secondCmd thisCmdIs
      (mild first firstValue there (by rw [works]; exact Option.some_ne_none _))
      (mild second secondValue there' (by rw [works']; exact Option.some_ne_none _)) works works'
  starting thread cmd thisCmdIs there :=
    inv.starting thread cmd thisCmdIs (mild thread _ there (Option.some_ne_none _))
  begunTaken := inv.begunTaken
  executed thread cmd thisCmdIs there := by
    rcases there with there | there
    · exact inv.executed thread cmd thisCmdIs (.inl (mild thread _ there (Option.some_ne_none _)))
    · exact inv.executed thread cmd thisCmdIs (.inr (mild thread _ there (Option.some_ne_none _)))
  waits := inv.waits
  returning := inv.returning
  known := inv.known

theorem Inv.other_number (inv : Inv state) {thread other : Nat} {value otherValue : Thread}
    {cmd otherCmd thisCmdIs otherIs : Nat} (there : state.threads[thread]? = some value)
    (works : value.work = some (cmd, thisCmdIs)) (otherThere : state.threads[other]? = some otherValue)
    (otherWorks : otherValue.work = some (otherCmd, otherIs)) (apart : other ≠ thread) :
    otherIs ≠ thisCmdIs := by
  rintro rfl
  exact apart (inv.distinct other thread otherValue value otherCmd cmd otherIs otherThere there
    otherWorks works)

theorem Numbered.le_last (numbered : Numbered state) {last taken : Nat}
    (known : state.picked[state.cmdsExecuted - 1]? = some last) (member : taken ∈ state.picked) :
    taken ≤ last := by
  obtain ⟨position, inside, rfl⟩ := List.mem_iff_getElem.mp member
  rw [numbered.counted] at known
  obtain ⟨lastInside, rfl⟩ := List.getElem?_eq_some_iff.mp known
  have sorted := (pairwise_append.mp numbered.ordered).1
  rcases Nat.lt_or_ge position (state.picked.length - 1) with before | after
  · exact Nat.le_of_lt (List.pairwise_iff_getElem.mp sorted _ _ inside lastInside before)
  · have same : position = state.picked.length - 1 := by omega
    subst same
    exact Nat.le_refl _

variable {thread : Nat}

theorem Numbered.advance (numbered : Numbered state) {value next : Thread}
    (there : state.threads[thread]? = some value) (same : next.work = value.work) :
    Numbered (state.setThread thread next) where
  ordered := numbered.ordered
  bounded := numbered.bounded
  counted := numbered.counted
  number other found cmd thisCmdIs known works := by
    rcases getElem?_set_cases known with ⟨rfl, rfl⟩ | ⟨-, before⟩
    · exact numbered.number other value cmd thisCmdIs there (same ▸ works)
    · exact numbered.number other found cmd thisCmdIs before works

theorem Inv.advance (inv : Inv state) {value next : Thread}
    (there : state.threads[thread]? = some value) (same : next.work = value.work)
    (begun : ∀ cmd thisCmdIs, next ≠ .picked cmd thisCmdIs)
    (done : ∀ cmd thisCmdIs, next = .executed cmd thisCmdIs ∨ next = .terminating cmd thisCmdIs →
      state.Done cmd) : Inv (state.setThread thread next) where
  sound := ⟨inv.sound.finished, inv.sound.inOrder⟩
  numbered := inv.numbered.advance there same
  distinct first second firstValue secondValue firstCmd secondCmd thisCmdIs known known' works
      works' := by
    rcases getElem?_set_cases known with ⟨rfl, rfl⟩ | ⟨-, before⟩
    · rcases getElem?_set_cases known' with ⟨rfl, rfl⟩ | ⟨apart, before'⟩
      · rfl
      · exact absurd rfl (inv.other_number there (same ▸ works) before' works' apart)
    · rcases getElem?_set_cases known' with ⟨rfl, rfl⟩ | ⟨-, before'⟩
      · exact inv.distinct first second firstValue value firstCmd secondCmd thisCmdIs before there
          works (same ▸ works')
      · exact inv.distinct first second firstValue secondValue firstCmd secondCmd thisCmdIs before
          before' works works'
  starting other cmd thisCmdIs known := by
    rcases getElem?_set_cases known with ⟨rfl, found⟩ | ⟨-, before⟩
    · exact absurd found.symm (begun cmd thisCmdIs)
    · exact inv.starting other cmd thisCmdIs before
  begunTaken := inv.begunTaken
  executed other cmd thisCmdIs known := by
    rcases known with known | known
    · rcases getElem?_set_cases known with ⟨rfl, found⟩ | ⟨-, before⟩
      · exact done cmd thisCmdIs (.inl found.symm)
      · exact inv.executed other cmd thisCmdIs (.inl before)
    · rcases getElem?_set_cases known with ⟨rfl, found⟩ | ⟨-, before⟩
      · exact done cmd thisCmdIs (.inr found.symm)
      · exact inv.executed other cmd thisCmdIs (.inr before)
  waits := inv.waits
  returning := inv.returning
  known := inv.known

theorem Inv.more_done (inv : Inv state) (completed aborted : List Nat) : Inv { state with
      completed := state.completed ++ completed, aborted := state.aborted ++ aborted } := by
  have done : ∀ cmd, state.Done cmd → cmd ∈ state.completed ++ completed ∨ cmd ∈ state.aborted ++ aborted := by
    intro cmd known
    rcases known with before | before
    · exact .inl (mem_append_left _ before)
    · exact .inr (mem_append_left _ before)
  refine ⟨⟨fun cmd member awaited => done cmd (inv.sound.finished cmd member awaited),
    inv.sound.inOrder⟩, ⟨inv.numbered.ordered, inv.numbered.bounded, inv.numbered.counted,
    inv.numbered.number⟩, inv.distinct, inv.starting, inv.begunTaken,
    fun thread cmd thisCmdIs there => done cmd (inv.executed thread cmd thisCmdIs there),
    fun cmd same => ?_, fun cmd same => ?_, inv.known⟩
  · obtain ⟨last, place⟩ := inv.waits cmd same
    refine ⟨last, ?_⟩
    rcases place with queued | taken | gone
    · exact .inl queued
    · exact .inr (.inl taken)
    · exact .inr (.inr (mem_append_left _ gone))
  · obtain ⟨bound, finished⟩ := inv.returning cmd same
    exact ⟨bound, fun awaited => done cmd (finished awaited)⟩

variable {thread cmd thisCmdIs : Nat}

theorem Inv.begin (inv : Inv state) (there : state.threads[thread]? = some (.picked cmd thisCmdIs)) :
    Inv { state.setThread thread (.executing cmd thisCmdIs) with
      begun := state.begun ++ [cmd] } := by
  have advanced : Inv (state.setThread thread (.executing cmd thisCmdIs)) :=
    inv.advance there rfl (fun _ _ same => by cases same)
      (fun _ _ same => by rcases same with same | same <;> cases same)
  obtain ⟨rfl, fresh⟩ := inv.starting thread cmd thisCmdIs there
  obtain ⟨positive, taken⟩ := inv.numbered.number thread _ cmd _ there rfl
  have member : cmd ∈ state.picked := List.mem_of_getElem? taken
  refine ⟨⟨advanced.sound.finished, ?_⟩, ⟨advanced.numbered.ordered, advanced.numbered.bounded,
    advanced.numbered.counted, advanced.numbered.number⟩, advanced.distinct, ?_, ?_,
    advanced.executed, advanced.waits, advanced.returning, advanced.known⟩
  · refine pairwise_append.mpr ⟨inv.sound.inOrder, List.pairwise_singleton _ _, ?_⟩
    intro before begunBefore last same
    rw [mem_singleton.mp same]
    have bound := inv.numbered.le_last taken (inv.begunTaken before begunBefore)
    exact Nat.lt_of_le_of_ne bound fun equal => fresh (equal ▸ begunBefore)
  · intro other otherCmd otherIs known
    obtain ⟨last, -⟩ := advanced.starting other otherCmd otherIs known
    rcases getElem?_set_cases known with ⟨rfl, found⟩ | ⟨apart, before⟩
    · cases found
    · exact absurd last (inv.other_number there rfl before rfl apart)
  · intro begun known
    rcases mem_append.mp known with before | last
    · exact inv.begunTaken begun before
    · exact mem_singleton.mp last ▸ member

theorem Numbered.le_count (numbered : Numbered state) {value : Thread}
    {cmd thisCmdIs : Nat} (there : state.threads[thread]? = some value)
    (works : value.work = some (cmd, thisCmdIs)) : thisCmdIs ≤ state.cmdsExecuted := by
  obtain ⟨positive, taken⟩ := numbered.number thread value cmd thisCmdIs there works
  obtain ⟨inside, -⟩ := List.getElem?_eq_some_iff.mp taken
  rw [numbered.counted]
  omega

variable {cmd : Nat}

theorem Numbered.take (numbered : Numbered state) {rest : List Nat}
    (queued : state.dispatch = cmd :: rest) (thread : Nat) : Numbered { state with
      dispatch := rest
      cmdsExecuted := state.cmdsExecuted + 1
      readyForNextCmd := false
      picked := state.picked ++ [cmd]
      threads := state.threads.set thread (.picked cmd (state.cmdsExecuted + 1)) } := by
  have moved : state.picked ++ state.dispatch = state.picked ++ [cmd] ++ rest := by
    rw [queued, List.append_assoc]
    rfl
  refine ⟨?_, ?_, ?_, ?_⟩
  · rw [← moved]
    exact numbered.ordered
  · rw [← moved]
    exact numbered.bounded
  · simp [numbered.counted]
  · intro other value otherCmd thisCmdIs there works
    rcases getElem?_set_cases there with ⟨rfl, rfl⟩ | ⟨-, before⟩
    · obtain ⟨rfl, rfl⟩ := Prod.mk.inj (Option.some.inj works)
      simp [numbered.counted]
    · obtain ⟨positive, taken⟩ := numbered.number other value otherCmd thisCmdIs before works
      have inside := (List.getElem?_eq_some_iff.mp taken).1
      exact ⟨positive, (List.getElem?_append_left inside).trans taken⟩

theorem Inv.take (inv : Inv state) {rest : List Nat} (queued : state.dispatch = cmd :: rest) (thread : Nat)
    (inTurn : ∀ other otherCmd thisCmdIs : Nat, state.threads[other]? ≠ some (.picked otherCmd thisCmdIs)) :
    Inv { state with
      dispatch := rest
      cmdsExecuted := state.cmdsExecuted + 1
      readyForNextCmd := false
      picked := state.picked ++ [cmd]
      threads := state.threads.set thread (.picked cmd (state.cmdsExecuted + 1)) } := by
  have untaken : cmd ∉ state.picked := by
    intro member
    have sorted := (pairwise_append.mp inv.numbered.ordered).2.2 cmd member cmd
    rw [queued] at sorted
    exact Nat.lt_irrefl _ (sorted mem_cons_self)
  have below : ∀ {other : Nat} {value : Thread} {otherCmd thisCmdIs : Nat},
      state.threads[other]? = some value → value.work = some (otherCmd, thisCmdIs) →
      thisCmdIs ≠ state.cmdsExecuted + 1 :=
    fun there works => Nat.ne_of_lt (Nat.lt_succ_of_le (inv.numbered.le_count there works))
  refine ⟨⟨inv.sound.finished, inv.sound.inOrder⟩, inv.numbered.take queued thread, ?_, ?_, ?_, ?_,
    ?_, inv.returning, inv.known⟩
  · intro first second firstValue secondValue firstCmd secondCmd thisCmdIs there there' works works'
    rcases getElem?_set_cases there with ⟨rfl, rfl⟩ | ⟨-, before⟩
    · obtain ⟨rfl, rfl⟩ := Prod.mk.inj (Option.some.inj works)
      rcases getElem?_set_cases there' with ⟨rfl, rfl⟩ | ⟨-, before'⟩
      · rfl
      · exact absurd rfl (below before' works')
    · rcases getElem?_set_cases there' with ⟨rfl, rfl⟩ | ⟨-, before'⟩
      · obtain ⟨rfl, rfl⟩ := Prod.mk.inj (Option.some.inj works')
        exact absurd rfl (below before works)
      · exact inv.distinct first second firstValue secondValue firstCmd secondCmd thisCmdIs before
          before' works works'
  · intro other otherCmd thisCmdIs there
    rcases getElem?_set_cases there with ⟨rfl, found⟩ | ⟨-, before⟩
    · obtain ⟨rfl, rfl⟩ := Thread.picked.inj found
      exact ⟨rfl, fun member => untaken (inv.begunTaken _ member)⟩
    · exact absurd before (inTurn other otherCmd thisCmdIs)
  · exact fun begun member => mem_append_left _ (inv.begunTaken begun member)
  · intro other otherCmd thisCmdIs there
    rcases there with there | there
    · rcases getElem?_set_cases there with ⟨rfl, found⟩ | ⟨-, before⟩
      · cases found
      · exact inv.executed other otherCmd thisCmdIs (.inl before)
    · rcases getElem?_set_cases there with ⟨rfl, found⟩ | ⟨-, before⟩
      · cases found
      · exact inv.executed other otherCmd thisCmdIs (.inr before)
  · intro awaited same
    obtain ⟨last, place⟩ := inv.waits awaited same
    refine ⟨last, ?_⟩
    rcases place with inQueue | taken | gone
    · rw [queued] at inQueue
      rcases List.mem_cons.mp inQueue with rfl | later
      · exact .inr (.inl (mem_append_right _ mem_cons_self))
      · exact .inl later
    · exact .inr (.inl (mem_append_left _ taken))
    · exact .inr (.inr gone)

theorem look_inv (inv : Inv state) (thread : Nat) (inTurn : state.TakesInTurn) : Inv (look thread state) := by
  unfold look
  split
  · rename_i cmd rest ready queued
    exact inv.take queued thread (inTurn ready (by rw [queued]; exact List.cons_ne_nil _ _))
  · exact inv.mild (mild_set _ _ rfl) _ _ _ _ _ _ _

theorem look_numbered (numbered : Numbered state) (thread : Nat) : Numbered (look thread state) := by
  unfold look
  split
  · rename_i cmd rest ready queued
    exact numbered.take queued thread
  · exact numbered.mild (mild_set _ _ rfl) _ _ _ _ _ _ _

theorem releaseMain_numbered (numbered : Numbered state) : Numbered (releaseMain state) :=
  ⟨numbered.ordered, numbered.bounded, numbered.counted, numbered.number⟩

theorem releaseMain_inv (inv : Inv state)
    (done : ∀ cmd, state.main = .waiting cmd → state.Awaited cmd → state.Done cmd) :
    Inv (releaseMain state) := by
  refine ⟨⟨inv.sound.finished, inv.sound.inOrder⟩, releaseMain_numbered inv.numbered, inv.distinct,
    inv.starting, inv.begunTaken, inv.executed, fun cmd same => ?_, fun cmd same => ?_, inv.known⟩
  · unfold releaseMain at same
    cases known : state.main with
    | free => simp [known] at same
    | waiting awaited => simp [known] at same
    | returning awaited => simp [known] at same
  · cases known : state.main with
    | free => simp [releaseMain, known] at same
    | waiting awaited =>
      have equal : awaited = cmd := by simpa [releaseMain, known] using same
      subst equal
      refine ⟨?_, done awaited known⟩
      have last := (inv.waits awaited known).1
      show awaited < state.commands.length
      omega
    | returning awaited =>
      have equal : awaited = cmd := by simpa [releaseMain, known] using same
      subst equal
      exact inv.returning awaited known

theorem Inv.woken_done (inv : Inv state) {thread executed thisCmdIs : Nat}
    (there : state.threads[thread]? = some (.executed executed thisCmdIs) ∨
      state.threads[thread]? = some (.terminating executed thisCmdIs))
    (woken : state.WokenByLast thisCmdIs) (waiting : state.main = .waiting cmd)
    (awaited : state.Awaited cmd) : state.Done cmd := by
  rcases woken cmd waiting awaited with ⟨empty, rfl⟩ | gone
  · obtain ⟨last, place⟩ := inv.waits cmd waiting
    rcases place with queued | taken | gone
    · rw [empty] at queued
      cases queued
    · have known : state.picked[state.cmdsExecuted - 1]? = some executed := by
        rcases there with there | there
        · exact (inv.numbered.number thread _ executed _ there rfl).2
        · exact (inv.numbered.number thread _ executed _ there rfl).2
      have lower := inv.numbered.le_last known taken
      have upper := inv.numbered.bounded executed (mem_append_left _ (List.mem_of_getElem? known))
      have same : executed = cmd := by omega
      exact same ▸ inv.executed thread executed _ there
    · exact .inr gone
  · exact .inr gone

theorem broadcast_mild : ∃ threads, Mild state.threads threads ∧
    broadcast state = { state with threads := threads } := by
  rw [broadcast]
  split
  · exact ⟨_, mild_wake _, rfl⟩
  · exact ⟨_, Mild.refl _, rfl⟩

theorem broadcast_executed (there : state.threads[thread]? = some (.executed cmd thisCmdIs)) :
    (broadcast state).threads[thread]? = some (.executed cmd thisCmdIs) := by
  rw [broadcast]
  split
  · simp [there]
  · exact there

theorem shutDownThread_inv (inv : Inv state)
    (there : state.threads[thread]? = some (.executed cmd thisCmdIs)) :
    Inv (shutDownThread thread cmd thisCmdIs state) := by
  have done := inv.executed thread cmd thisCmdIs (.inl there)
  rw [shutDownThread]
  split
  · refine inv.advance there rfl (fun _ _ same => by cases same) ?_
    intro other otherIs same
    rcases same with same | same
    · cases same
    · obtain ⟨rfl, -⟩ := Thread.terminating.inj same
      exact done
  · exact inv.mild (mild_set _ _ rfl) _ _ _ _ _ _ _

theorem shutDownThread_numbered (numbered : Numbered state)
    (there : state.threads[thread]? = some (.executed cmd thisCmdIs)) :
    Numbered (shutDownThread thread cmd thisCmdIs state) := by
  rw [shutDownThread]
  split
  · exact numbered.advance there rfl
  · exact numbered.mild (mild_set _ _ rfl) _ _ _ _ _ _ _

theorem wakeMain_inv (inv : Inv state) (there : state.threads[thread]? = some (.executed cmd thisCmdIs))
    (woken : state.mainWaiting = true → state.dispatch.length ≤ state.mainWaitingCount →
      state.WokenByLast thisCmdIs) : Inv (wakeMain state) := by
  rw [wakeMain]
  split
  · rename_i waiting
    exact releaseMain_inv inv fun awaitedCmd main awaited =>
      inv.woken_done (.inl there) (woken waiting.1 waiting.2) main awaited
  · exact inv

theorem wakeMain_numbered (numbered : Numbered state) : Numbered (wakeMain state) := by
  rw [wakeMain]
  split
  · exact releaseMain_numbered numbered
  · exact numbered

theorem takesInTurn_after (inv : Inv state) (there : state.threads[thread]? = some (.executed cmd thisCmdIs))
    (inTurn : state.TakesInTurn) : (readyAfter thisCmdIs state).TakesInTurn := by
  intro ready nonempty other otherCmd otherIs picked
  rcases Bool.or_eq_true_iff.mp ready with before | last
  · exact inTurn before nonempty other otherCmd otherIs picked
  · obtain ⟨rfl, -⟩ := inv.starting other otherCmd otherIs picked
    change state.threads[other]? = _ at picked
    rw [← of_decide_eq_true last] at picked
    have same := inv.distinct thread other _ _ cmd otherCmd thisCmdIs there picked rfl rfl
    subst same
    rw [there] at picked
    cases picked

theorem wakeMain_takesInTurn (thisCmdIs : Nat) (inTurn : (readyAfter thisCmdIs state).TakesInTurn) :
    (readyAfter thisCmdIs (wakeMain state)).TakesInTurn := by
  rw [wakeMain]
  split
  · exact inTurn
  · exact inTurn

theorem finish_inv (inv : Inv state) (there : state.threads[thread]? = some (.executed cmd thisCmdIs))
    (orderly : state.shutDown = false → state.TakesInTurn ∧
      (state.mainWaiting = true → state.dispatch.length ≤ state.mainWaitingCount →
        state.WokenByLast thisCmdIs)) : Inv (finish thread cmd thisCmdIs state) := by
  rw [finish]
  split
  · obtain ⟨threads, mild, same⟩ := @broadcast_mild state
    have known := broadcast_executed there
    rw [same] at known ⊢
    exact shutDownThread_inv (inv.mild mild _ _ _ _ _ _ _) known
  · rename_i running
    obtain ⟨inTurn, woken⟩ := orderly (Bool.eq_false_iff.mpr running)
    exact look_inv ((wakeMain_inv inv there woken).mild (Mild.refl _) _ _ _ _ _ _ _) thread
      (wakeMain_takesInTurn thisCmdIs (takesInTurn_after inv there inTurn))

theorem finish_numbered (numbered : Numbered state)
    (there : state.threads[thread]? = some (.executed cmd thisCmdIs)) :
    Numbered (finish thread cmd thisCmdIs state) := by
  rw [finish]
  split
  · obtain ⟨threads, mild, same⟩ := @broadcast_mild state
    have known := broadcast_executed there
    rw [same] at known ⊢
    exact shutDownThread_numbered (numbered.mild mild _ _ _ _ _ _ _) known
  · exact look_numbered ((wakeMain_numbered numbered).mild (Mild.refl _) _ _ _ _ _ _ _) thread

variable {next : State}

theorem extStep_inv (inv : Inv state)
    (orderly : Orderly state (.ext thread)) (stepped : extStep thread state = some next) : Inv next := by
  rw [Orderly] at orderly
  cases there : state.threads[thread]? with
  | none => simp [extStep, there] at stepped
  | some value =>
    simp only [there] at orderly
    cases value with
    | created =>
      simp only [extStep, there, Option.some.injEq] at stepped
      subst stepped
      exact look_inv inv thread orderly
    | waiting => simp [extStep, there] at stepped
    | awake =>
      simp only [extStep, there] at stepped
      split at stepped
      · obtain rfl := Option.some.inj stepped
        exact inv.mild (mild_set _ _ rfl) _ _ _ _ _ _ _
      · rename_i running
        obtain rfl := Option.some.inj stepped
        exact look_inv (inv.mild (Mild.refl _) _ _ _ _ _ _ _) thread (orderly (Bool.eq_false_iff.mpr running))
    | picked cmd thisCmdIs =>
      simp only [extStep, there] at stepped
      split at stepped
      · rename_i aborted
        obtain rfl := Option.some.inj stepped
        refine inv.advance there rfl (fun _ _ same => by cases same) ?_
        intro other otherIs same
        rcases same with same | same
        · obtain ⟨rfl, -⟩ := Thread.executed.inj same
          exact .inr aborted
        · cases same
      · obtain rfl := Option.some.inj stepped
        exact inv.begin there
    | executing cmd thisCmdIs =>
      simp only [extStep, there, Option.some.injEq] at stepped
      subst stepped
      have more := inv.more_done [cmd] []
      rw [append_nil] at more
      refine more.advance there rfl (fun _ _ same => by cases same) ?_
      intro other otherIs same
      rcases same with same | same
      · obtain ⟨rfl, -⟩ := Thread.executed.inj same
        exact .inl (mem_append_right _ mem_cons_self)
      · cases same
    | executed cmd thisCmdIs =>
      simp only [extStep, there, Option.some.injEq] at stepped
      subst stepped
      exact finish_inv inv there orderly
    | terminating cmd thisCmdIs =>
      simp only [extStep, there] at stepped
      split at stepped
      · obtain rfl := Option.some.inj stepped
        split
        · rename_i waiting
          have released := releaseMain_inv inv fun awaitedCmd main awaited =>
            inv.woken_done (.inr there) (orderly waiting) main awaited
          exact released.mild (mild_set _ _ rfl) _ _ _ _ _ _ _
        · exact inv.mild (mild_set _ _ rfl) _ _ _ _ _ _ _
      · cases stepped
    | leaving =>
      simp only [extStep, there, Option.some.injEq] at stepped
      subst stepped
      exact inv.mild (mild_set _ _ rfl) _ _ _ _ _ _ _
    | exited => simp [extStep, there] at stepped

theorem extStep_numbered (numbered : Numbered state)
    (stepped : extStep thread state = some next) : Numbered next := by
  cases there : state.threads[thread]? with
  | none => simp [extStep, there] at stepped
  | some value =>
    cases value with
    | created =>
      simp only [extStep, there, Option.some.injEq] at stepped
      subst stepped
      exact look_numbered numbered thread
    | waiting => simp [extStep, there] at stepped
    | awake =>
      simp only [extStep, there] at stepped
      split at stepped
      · obtain rfl := Option.some.inj stepped
        exact numbered.mild (mild_set _ _ rfl) _ _ _ _ _ _ _
      · obtain rfl := Option.some.inj stepped
        exact look_numbered (numbered.mild (Mild.refl _) _ _ _ _ _ _ _) thread
    | picked cmd thisCmdIs =>
      simp only [extStep, there] at stepped
      have advanced : ∀ next : Thread, next.work = some (cmd, thisCmdIs) →
          Numbered (state.setThread thread next) := fun next works =>
        numbered.advance there works
      split at stepped
      · obtain rfl := Option.some.inj stepped
        exact advanced _ rfl
      · obtain rfl := Option.some.inj stepped
        have begun := advanced (.executing cmd thisCmdIs) rfl
        exact ⟨begun.ordered, begun.bounded, begun.counted, begun.number⟩
    | executing cmd thisCmdIs =>
      simp only [extStep, there, Option.some.injEq] at stepped
      subst stepped
      have advanced : Numbered (state.setThread thread (.executed cmd thisCmdIs)) :=
        numbered.advance there rfl
      exact ⟨advanced.ordered, advanced.bounded, advanced.counted, advanced.number⟩
    | executed cmd thisCmdIs =>
      simp only [extStep, there, Option.some.injEq] at stepped
      subst stepped
      exact finish_numbered numbered there
    | terminating cmd thisCmdIs =>
      simp only [extStep, there] at stepped
      split at stepped
      · obtain rfl := Option.some.inj stepped
        split
        · exact (releaseMain_numbered numbered).mild (mild_set _ _ rfl) _ _ _ _ _ _ _
        · exact numbered.mild (mild_set _ _ rfl) _ _ _ _ _ _ _
      · cases stepped
    | leaving =>
      simp only [extStep, there, Option.some.injEq] at stepped
      subst stepped
      exact numbered.mild (mild_set _ _ rfl) _ _ _ _ _ _ _
    | exited => simp [extStep, there] at stepped

variable {command : Command}

theorem awaited_before (bound : cmd < state.commands.length) :
    State.Awaited { state with commands := state.commands ++ [command] } cmd ↔ state.Awaited cmd := by
  unfold State.Awaited
  rw [List.getElem?_append_left bound]

theorem Numbered.call (numbered : Numbered state) (command : Command) (queued : List Nat)
    (either : queued = [] ∨ queued = [state.commands.length]) : Numbered { state with
      commands := state.commands ++ [command], dispatch := state.dispatch ++ queued } := by
  refine ⟨?_, ?_, numbered.counted, numbered.number⟩
  · rw [← List.append_assoc]
    rcases either with rfl | rfl
    · rw [append_nil]
      exact numbered.ordered
    · refine pairwise_append.mpr ⟨numbered.ordered, List.pairwise_singleton _ _, ?_⟩
      intro before member last same
      exact mem_singleton.mp same ▸ numbered.bounded before member
  · intro cmd member
    rw [← List.append_assoc] at member
    rw [List.length_append, List.length_singleton]
    rcases mem_append.mp member with before | last
    · exact Nat.lt_succ_of_lt (numbered.bounded cmd before)
    · rcases either with rfl | rfl
      · cases last
      · rw [mem_singleton.mp last]
        exact Nat.lt_succ_self _

theorem Inv.call (inv : Inv state) (free : state.main = .free) (command : Command)
    (queued : List Nat) (either : queued = [] ∨ queued = [state.commands.length]) : Inv { state with
      commands := state.commands ++ [command], dispatch := state.dispatch ++ queued } where
  sound := ⟨fun cmd member awaited =>
    inv.sound.finished cmd member ((awaited_before (inv.known cmd member)).mp awaited),
    inv.sound.inOrder⟩
  numbered := inv.numbered.call command queued either
  distinct := inv.distinct
  starting := inv.starting
  begunTaken := inv.begunTaken
  executed := inv.executed
  waits cmd same := by cases free.symm.trans same
  returning cmd same := by cases free.symm.trans same
  known cmd member := by
    rw [List.length_append, List.length_singleton]
    exact Nat.lt_succ_of_lt (inv.known cmd member)

theorem returnMain_inv (inv : Inv state) (bound : cmd < state.commands.length)
    (done : state.Awaited cmd → state.Done cmd) : Inv (returnMain cmd state) := by
  refine ⟨⟨fun returned member awaited => ?_, inv.sound.inOrder⟩, ⟨inv.numbered.ordered,
    inv.numbered.bounded, inv.numbered.counted, inv.numbered.number⟩, inv.distinct, inv.starting,
    inv.begunTaken, inv.executed, fun _ same => Main.noConfusion same,
    fun _ same => Main.noConfusion same, fun returned member => ?_⟩
  · rcases mem_append.mp member with before | last
    · exact inv.sound.finished returned before awaited
    · obtain rfl := mem_singleton.mp last
      exact done awaited
  · rcases mem_append.mp member with before | last
    · exact inv.known returned before
    · obtain rfl := mem_singleton.mp last
      exact bound

theorem waitForMain_inv (inv : Inv state) (last : cmd + 1 = state.commands.length)
    (queued : cmd ∈ state.dispatch) (count : Nat) : Inv (waitForMain cmd count state) := by
  refine ⟨⟨inv.sound.finished, inv.sound.inOrder⟩, ⟨inv.numbered.ordered, inv.numbered.bounded,
    inv.numbered.counted, inv.numbered.number⟩, inv.distinct, inv.starting, inv.begunTaken,
    inv.executed, fun waited same => ?_, fun _ same => Main.noConfusion same, inv.known⟩
  obtain rfl := Main.waiting.inj same
  exact ⟨last, .inl queued⟩

structure Wakes (state next : State) : Prop where
  inv : Inv state → Inv next
  numbered : Numbered state → Numbered next
  commands : next.commands = state.commands
  dispatch : next.dispatch = state.dispatch
  offline : next.isOfflineCmd = state.isOfflineCmd

theorem createThread_wakes (cmd : Nat) (creation : Creation) :
    Wakes state (createThread cmd creation state) := by
  have failed : Wakes state
      { state with aborted := state.aborted ++ [cmd], shutDown := true } := by
    refine ⟨fun inv => ?_, fun numbered => ⟨numbered.ordered, numbered.bounded, numbered.counted,
      numbered.number⟩, rfl, rfl, rfl⟩
    have more := inv.more_done [] [cmd]
    rw [append_nil] at more
    exact more.mild (Mild.refl _) _ _ _ _ _ _ _
  unfold createThread
  split
  · exact ⟨fun inv => inv.mild (mild_append _) _ _ _ _ _ _ _,
      fun numbered => numbered.mild (mild_append _) _ _ _ _ _ _ _, rfl, rfl, rfl⟩
  · exact failed
  · split
    · exact failed
    · exact ⟨fun inv => inv.mild (Mild.refl _) _ _ _ _ _ _ _,
        fun numbered => numbered.mild (Mild.refl _) _ _ _ _ _ _ _, rfl, rfl, rfl⟩

theorem wakes_refl : Wakes state state := ⟨id, id, rfl, rfl, rfl⟩

variable {woken : Option Nat}

theorem signal_wakes (signalled : signal woken state = some next) : Wakes state next := by
  obtain ⟨threads, mild, rfl⟩ := signal_mild signalled
  exact ⟨fun inv => inv.mild mild _ _ _ _ _ _ _, fun numbered => numbered.mild mild _ _ _ _ _ _ _,
    rfl, rfl, rfl⟩

variable {creation : Creation}

theorem wakeUp_wakes (woke : wakeUp cmd woken creation state = some next) : Wakes state next := by
  rw [wakeUp] at woke
  split at woke
  · obtain rfl := Option.some.inj woke
    exact wakes_refl
  · split at woke
    · exact signal_wakes woke
    · split at woke
      · obtain rfl := Option.some.inj woke
        exact createThread_wakes cmd creation
      · obtain rfl := Option.some.inj woke
        exact wakes_refl

theorem afterWakeUp_inv (inv : Inv next)
    (last : cmd + 1 = next.commands.length) (known : next.commands[cmd]? = some command)
    (queued : cmd ∈ next.dispatch) {final : State}
    (called : (if serializeExecution next.isOfflineCmd command then some (waitForMain cmd 0 next)
      else if command.type = .exit then
        if next.shutDown then some (returnMain cmd next) else some (waitForMain cmd 0 next)
      else if command.type = .playback then some (waitForMain cmd 0 next)
      else if next.maxAsyncCommands * 2 < next.dispatch.length then
        some (waitForMain cmd next.maxAsyncCommands next)
      else some (returnMain cmd next)) = some final) : Inv final := by
  have waits : ∀ count, Inv (waitForMain cmd count next) := waitForMain_inv inv last queued
  have returns : serializeExecution next.isOfflineCmd command = false →
      command.type ≠ .playback → Inv (returnMain cmd next) := by
    intro parallel input
    refine returnMain_inv inv (by omega) fun awaited => ?_
    obtain ⟨found, same, needed⟩ := awaited
    obtain rfl := Option.some.inj (known.symm.trans same)
    simp [parallel, input] at needed
  split at called
  · exact Option.some.inj called ▸ waits 0
  · rename_i parallel
    have parallel := Bool.eq_false_iff.mpr parallel
    split at called
    · rename_i exit
      have input : command.type ≠ .playback := by
        rw [exit]
        exact fun same => CmdType.noConfusion same
      split at called
      · exact Option.some.inj called ▸ returns parallel input
      · exact Option.some.inj called ▸ waits 0
    · split at called
      · exact Option.some.inj called ▸ waits 0
      · rename_i input
        split at called
        · exact Option.some.inj called ▸ waits _
        · exact Option.some.inj called ▸ returns parallel input

theorem executeCmd_inv (inv : Inv state) (free : state.main = .free)
    (orderly : Orderly state (.executeCmd command woken creation))
    (called : executeCmd command woken creation state = some next) : Inv next := by
  have known : (state.commands ++ [command])[state.commands.length]? = some command := by
    simp
  have unqueued := inv.call free command [] (.inl rfl)
  rw [append_nil] at unqueued
  rw [executeCmd] at called
  dsimp only at called
  split at called
  · rename_i shutDown
    obtain rfl := Option.some.inj called
    refine returnMain_inv unqueued (by simp) fun awaited => ?_
    obtain ⟨found, same, needed⟩ := awaited
    obtain rfl := Option.some.inj (known.symm.trans same)
    exact Bool.noConfusion (shutDown.symm.trans (orderly needed))
  · split at called
    · obtain rfl := Option.some.inj called
      have more := unqueued.more_done [state.commands.length] []
      rw [append_nil] at more
      exact returnMain_inv more (by simp) fun _ =>
        .inl (mem_append_right _ mem_cons_self)
    · obtain ⟨woke, wakes, called⟩ := Option.bind_eq_some_iff.mp called
      have kept := wakeUp_wakes wakes
      refine afterWakeUp_inv (kept.inv (inv.call free command _ (.inr rfl))) ?_ ?_ ?_ called
      · rw [kept.commands]
        simp
      · rw [kept.commands]
        exact known
      · rw [kept.dispatch]
        exact mem_append_right _ mem_cons_self

theorem executeCmd_numbered (numbered : Numbered state)
    (called : executeCmd command woken creation state = some next) : Numbered next := by
  have returns : ∀ {cmd : Nat} {final : State}, Numbered final → Numbered (returnMain cmd final) :=
    fun final => ⟨final.ordered, final.bounded, final.counted, final.number⟩
  have waits : ∀ {cmd count : Nat} {final : State}, Numbered final → Numbered (waitForMain cmd count final) :=
    fun final => ⟨final.ordered, final.bounded, final.counted, final.number⟩
  have unqueued := numbered.call command [] (.inl rfl)
  rw [append_nil] at unqueued
  rw [executeCmd] at called
  dsimp only at called
  split at called
  · exact Option.some.inj called ▸ returns unqueued
  · split at called
    · obtain rfl := Option.some.inj called
      exact returns ⟨unqueued.ordered, unqueued.bounded, unqueued.counted, unqueued.number⟩
    · obtain ⟨woke, wakes, called⟩ := Option.bind_eq_some_iff.mp called
      have kept := (wakeUp_wakes wakes).numbered (numbered.call command _ (.inr rfl))
      split at called
      · exact Option.some.inj called ▸ waits kept
      · split at called
        · split at called
          · exact Option.some.inj called ▸ returns kept
          · exact Option.some.inj called ▸ waits kept
        · split at called
          · exact Option.some.inj called ▸ waits kept
          · split at called
            · exact Option.some.inj called ▸ waits kept
            · exact Option.some.inj called ▸ returns kept

end

theorem safeToDoNextCmd_wakes {state next : State} {woken : Option Nat}
    (stepped : safeToDoNextCmd woken state = some next) : Wakes state next := by
  have ready : Wakes state { state with readyForNextCmd := true } :=
    ⟨fun inv => inv.mild (Mild.refl _) _ _ _ _ _ _ _,
      fun numbered => numbered.mild (Mild.refl _) _ _ _ _ _ _ _, rfl, rfl, rfl⟩
  rw [safeToDoNextCmd] at stepped
  split at stepped
  · have signalled := signal_wakes stepped
    exact ⟨fun inv => signalled.inv (ready.inv inv),
      fun numbered => signalled.numbered (ready.numbered numbered), signalled.commands,
      signalled.dispatch, signalled.offline⟩
  · exact Option.some.inj stepped ▸ ready

theorem purgeDispatchQueue_numbered {state : State} (numbered : Numbered state) :
    Numbered (purgeDispatchQueue state) := by
  refine ⟨?_, ?_, numbered.counted, numbered.number⟩
  · exact (append_nil _).symm ▸ (pairwise_append.mp numbered.ordered).1
  · intro cmd member
    have taken : cmd ∈ state.picked := by simpa [purgeDispatchQueue] using member
    exact numbered.bounded cmd (mem_append_left _ taken)

theorem purgeDispatchQueue_inv {state : State} (inv : Inv state) : Inv (purgeDispatchQueue state) := by
  have more := inv.more_done [] state.dispatch
  rw [append_nil] at more
  refine ⟨⟨more.sound.finished, more.sound.inOrder⟩, purgeDispatchQueue_numbered inv.numbered,
    inv.distinct, inv.starting, inv.begunTaken, more.executed, fun cmd same => ?_, more.returning,
    inv.known⟩
  obtain ⟨last, place⟩ := inv.waits cmd same
  refine ⟨last, ?_⟩
  rcases place with queued | taken | gone
  · exact .inr (.inr (mem_append_right _ queued))
  · exact .inr (.inl taken)
  · exact .inr (.inr (mem_append_left _ gone))

theorem step_inv (state : State) (input : Input) (next : State) (inv : Inv state)
    (orderly : Orderly state input) (stepped : step state input = some next) : Inv next := by
  cases input with
  | executeCmd command woken creation =>
    simp only [step] at stepped
    split at stepped
    · rename_i free
      exact executeCmd_inv inv free orderly stepped
    · cases stepped
  | mainReturns =>
    simp only [step] at stepped
    split at stepped
    · rename_i cmd returning
      obtain rfl := Option.some.inj stepped
      obtain ⟨bound, done⟩ := inv.returning cmd returning
      exact returnMain_inv inv bound done
    · cases stepped
  | ext thread => exact extStep_inv inv orderly stepped
  | safeToDoNextCmd thread woken =>
    simp only [step] at stepped
    split at stepped
    · exact (safeToDoNextCmd_wakes stepped).inv inv
    · cases stepped
  | purgeDispatchQueue => exact Option.some.inj stepped ▸ purgeDispatchQueue_inv inv
  | abort cmd =>
    obtain rfl := Option.some.inj stepped
    have more := inv.more_done [] [cmd]
    rwa [append_nil] at more
  | shutDown =>
    obtain rfl := Option.some.inj stepped
    exact inv.mild (Mild.refl _) _ _ _ _ _ _ _

theorem step_numbered (state : State) (input : Input) (next : State) (numbered : Numbered state)
    (stepped : step state input = some next) : Numbered next := by
  cases input with
  | executeCmd command woken creation =>
    simp only [step] at stepped
    split at stepped
    · exact executeCmd_numbered numbered stepped
    · cases stepped
  | mainReturns =>
    simp only [step] at stepped
    split at stepped
    · obtain rfl := Option.some.inj stepped
      exact ⟨numbered.ordered, numbered.bounded, numbered.counted, numbered.number⟩
    · cases stepped
  | ext thread => exact extStep_numbered numbered stepped
  | safeToDoNextCmd thread woken =>
    simp only [step] at stepped
    split at stepped
    · exact (safeToDoNextCmd_wakes stepped).numbered numbered
    · cases stepped
  | purgeDispatchQueue => exact Option.some.inj stepped ▸ purgeDispatchQueue_numbered numbered
  | abort cmd =>
    obtain rfl := Option.some.inj stepped
    exact ⟨numbered.ordered, numbered.bounded, numbered.counted, numbered.number⟩
  | shutDown =>
    obtain rfl := Option.some.inj stepped
    exact numbered.mild (Mild.refl _) _ _ _ _ _ _ _

/-- Commands are taken in the order of the queue in every run, and returned for when
they are done in the orderly ones. -/
theorem serialized_commands_finished (isOfflineCmd : Bool) (maxAsyncCommands : Nat)
    (inputs : List Input) (final : State)
    (ran : Runs.run step (initial isOfflineCmd maxAsyncCommands) inputs = some final) :
    final.picked.Pairwise (· < ·) ∧
      (Runs.Along Orderly step (initial isOfflineCmd maxAsyncCommands) inputs → Sound final) := by
  have start := initial_inv isOfflineCmd maxAsyncCommands
  constructor
  · have numbered := Runs.run_invariant Numbered start.numbered step_numbered ran
    exact (List.pairwise_append.mp numbered.ordered).1
  · intro along
    exact (Runs.run_invariant_along Inv step_inv start along ran).sound

def serializedRun : List Input :=
  [.executeCmd ⟨.other, true⟩ none .success, .ext 0, .ext 0, .ext 0, .ext 0, .mainReturns]

theorem serializedRun_orderly : Runs.Along Orderly step (initial false 20) serializedRun := by
  refine ⟨fun _ => rfl, fun next stepped => ?_⟩
  obtain rfl := Option.some.inj stepped
  refine ⟨fun _ _ thread cmd thisCmdIs picked => ?_, fun next stepped => ?_⟩
  · have member : Thread.picked cmd thisCmdIs ∈ [Thread.created] := List.mem_of_getElem? picked
    cases mem_singleton.mp member
  obtain rfl := Option.some.inj stepped
  refine ⟨trivial, fun next stepped => ?_⟩
  obtain rfl := Option.some.inj stepped
  refine ⟨trivial, fun next stepped => ?_⟩
  obtain rfl := Option.some.inj stepped
  refine ⟨fun _ => ⟨fun ready => Bool.noConfusion ready, fun _ _ _ _ _ => .inl ⟨rfl, rfl⟩⟩,
    fun next stepped => ?_⟩
  obtain rfl := Option.some.inj stepped
  exact ⟨trivial, fun _ _ => trivial⟩

theorem serialized_commands_finished_serializedRun :
    ∃ final, Runs.run step (initial false 20) serializedRun = some final ∧
      final.returned = [0] ∧ Sound final :=
  ⟨_, rfl, rfl, (serialized_commands_finished false 20 serializedRun _ rfl).2 serializedRun_orderly⟩

def overtakenRun : List Input :=
  [.executeCmd ⟨.other, false⟩ none .success, .ext 0, .ext 0, .safeToDoNextCmd 0 none,
    .executeCmd ⟨.other, true⟩ none .success, .ext 1, .ext 1, .ext 0, .ext 0, .mainReturns]

theorem overtakenRun_unfinished :
    ∃ final, Runs.run step (initial false 20) overtakenRun = some final ∧ ¬ Sound final := by
  refine ⟨_, rfl, fun sound => ?_⟩
  have done := sound.finished 1 (by decide) ⟨⟨.other, true⟩, rfl, rfl⟩
  rcases done with completed | aborted
  · exact absurd completed (by decide)
  · exact absurd aborted (by decide)

end OpenSpeedShop.CmdControl
