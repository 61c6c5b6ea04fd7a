import OpenSpeedShop.Frontend.GlobalTableCore

/-!
Replies are given to the first entry for their thread and variable. Every call gets an
answer to its question as long as that entry is there, and still waits for one.
-/

namespace OpenSpeedShop.Frontend

namespace GlobalTable

open Daemon (ThreadName)

attribute [ext] Query

namespace State

/-- No assertion has failed, every returned call has the answer to a request like its own, each reply was
given to a call of its own, and none waits when all replies are handled. -/
structure Good (state : State) : Prop where
  alive : state.failure = none
  answered : ∀ call ∈ state.calls, ∀ found value, call.phase = .returned found value →
    ⟨call.query, found, value⟩ ∈ state.answered
  once : state.calls.countP Call.given + state.replies.length = state.answered.length
  empty : (∀ call ∈ state.calls, ∃ found value, call.phase = .returned found value) → state.table = []
  woken : state.requests = [] → state.replies = [] → state.monitor = .idle →
    ∀ call ∈ state.calls, call.phase ≠ .requested ∧ (call.phase = .waiting → call.bucket.isSome)

/-- A reply is handled when no other thread has the names of its thread, and the first entry for
its thread and variable waits for a value of its kind. A string is empty; all is answered. -/
def Safe (threads : List ThreadName) (state : State) : Action → Prop
  | .handle => state.monitor = .idle → ∀ reply rest, state.replies = reply :: rest →
      getThreads threads reply.query.thread = [reply.query.thread] ∧
        (∀ text, reply.value = .string text → text = "") ∧
        ∃ index call, state.find reply.query.thread reply.query.global = some index ∧
          state.calls[index]? = some call ∧ call.given = false ∧
          call.query.kind = reply.value.kind
  | .ignore _ => False
  | .send _ | .enter _ | .take _ | .readFlag _ | .leave _ | .answer _ _ _ | .provide => True

theorem provided_of_empty {value : Value} (empty : ∀ text, value = .string text → text = "") :
    value.provided = value := by
  cases value with
  | integer value => rfl
  | string text =>
    rw [empty text rfl]
    rfl
  | job entries => rfl

def Unset (monitor : Monitor) (index : Nat) : Prop :=
  ∀ value, monitor ≠ .setting index value

def CallOk (monitor : Monitor) (answered : List Reply) (index : Nat) (call : Call) : Prop :=
  match call.phase with
  | .requested => call.given = false ∧ call.bucket = none ∧ Unset monitor index
  | .waiting =>
    (call.given = false ∧ call.bucket = none ∧ Unset monitor index) ∨
    (call.given = true ∧ ∃ value, ⟨call.query, call.found, value⟩ ∈ answered ∧
      ((call.bucket = some value ∧ Unset monitor index) ∨
        (call.bucket = none ∧ monitor = .setting index value)))
  | .taken value => call.given = true ∧ call.bucket = none ∧ Unset monitor index ∧
      ⟨call.query, call.found, value⟩ ∈ answered
  | .flagged found value => call.given = true ∧ Unset monitor index ∧ ⟨call.query, found, value⟩ ∈ answered
  | .returned found value => call.given = true ∧ Unset monitor index ∧ ⟨call.query, found, value⟩ ∈ answered

theorem unset_idle (index : Nat) : Unset .idle index := by
  intro value
  simp

theorem unset_setting {index other : Nat} (different : other ≠ index) (value : Value) :
    Unset (.setting index value) other := by
  intro another same
  injection same with sameIndex
  exact different sameIndex.symm

variable {index : Nat} {call : Call}

variable {answered more : List Reply}

theorem CallOk.monitor {monitor next : Monitor}
    (ok : CallOk monitor answered index call) (unset : Unset monitor index)
    (unsetNext : Unset next index) (kept : ∀ reply ∈ answered, reply ∈ more) :
    CallOk next more index call := by
  obtain ⟨query, phase, found, bucket, given⟩ := call
  cases phase with
  | requested => exact ⟨ok.1, ok.2.1, unsetNext⟩
  | waiting =>
    rcases ok with ⟨free, bucket, -⟩ | ⟨given, value, member, ⟨bucket, -⟩ | ⟨-, setting⟩⟩
    · exact Or.inl ⟨free, bucket, unsetNext⟩
    · exact Or.inr ⟨given, value, kept _ member, Or.inl ⟨bucket, unsetNext⟩⟩
    · exact absurd setting (unset value)
  | taken value => exact ⟨ok.1, ok.2.1, unsetNext, kept _ ok.2.2.2⟩
  | flagged found value => exact ⟨ok.1, unsetNext, kept _ ok.2.2⟩
  | returned found value => exact ⟨ok.1, unsetNext, kept _ ok.2.2⟩

theorem CallOk.mono {monitor : Monitor}
    (ok : CallOk monitor answered index call) (kept : ∀ reply ∈ answered, reply ∈ more) :
    CallOk monitor more index call := by
  obtain ⟨query, phase, found, bucket, given⟩ := call
  cases phase with
  | requested => exact ok
  | waiting =>
    rcases ok with free | ⟨given, value, member, place⟩
    · exact Or.inl free
    · exact Or.inr ⟨given, value, kept _ member, place⟩
  | taken value => exact ⟨ok.1, ok.2.1, ok.2.2.1, kept _ ok.2.2.2⟩
  | flagged found value => exact ⟨ok.1, ok.2.1, kept _ ok.2.2⟩
  | returned found value => exact ⟨ok.1, ok.2.1, kept _ ok.2.2⟩

theorem CallOk.set {answered : List Reply} {value : Value}
    (ok : CallOk (.setting index value) answered index call) :
    call.phase = .waiting ∧ call.given = true ∧ ⟨call.query, call.found, value⟩ ∈ answered := by
  have set : ¬ Unset (.setting index value) index := fun unset => unset value rfl
  obtain ⟨query, phase, found, bucket, given⟩ := call
  cases phase with
  | requested => exact absurd ok.2.2 set
  | waiting =>
    rcases ok with ⟨-, -, unset⟩ | ⟨given, other, member, ⟨-, unset⟩ | ⟨-, same⟩⟩
    · exact absurd unset set
    · exact absurd unset set
    · obtain ⟨-, rfl⟩ := Monitor.setting.inj same
      exact ⟨rfl, given, member⟩
  | taken value => exact absurd ok.2.2.1 set
  | flagged found value => exact absurd ok.2.1 set
  | returned found value => exact absurd ok.2.1 set

def Phase.InTable : Phase → Prop
  | .requested | .returned _ _ => False
  | .waiting | .taken _ | .flagged _ _ => True

def unanswered (query : Query) (call : Call) : Bool :=
  call.query = query && !call.given

structure Valid (threads : List ThreadName) (state : State) : Prop where
  alive : state.failure = none
  calls : ∀ index call, state.calls[index]? = some call → CallOk state.monitor state.answered index call
  bound : ∀ index value, state.monitor = .setting index value → index < state.calls.length
  nodup : state.table.Nodup
  inTable : ∀ index ∈ state.table, ∃ call, state.calls[index]? = some call ∧ Phase.InTable call.phase
  counted : ∀ query, state.calls.countP (unanswered query) =
    state.requests.count query + state.replies.countP fun reply => reply.query = query
  once : state.calls.countP Call.given + state.replies.length = state.answered.length
  replies : ∀ reply ∈ state.replies, reply ∈ state.answered ∧ reply.value.kind = reply.query.kind

theorem valid_start (threads : List ThreadName) : Valid threads start := by
  constructor
  · rfl
  · simp [start]
  · simp [start]
  · exact List.nodup_nil
  · simp [start]
  · simp [start]
  · rfl
  · simp [start]

variable {threads : List ThreadName}

variable {state : State}

theorem Valid.good (valid : Valid threads state) : Good state := by
  constructor
  · exact valid.alive
  · intro call member found value returned
    obtain ⟨index, here⟩ := List.mem_iff_getElem?.mp member
    have ok := valid.calls index call here
    unfold CallOk at ok
    rw [returned] at ok
    exact ok.2.2
  · exact valid.once
  · intro all
    rw [List.eq_nil_iff_forall_not_mem]
    intro index member
    obtain ⟨call, here, inside⟩ := valid.inTable index member
    obtain ⟨found, value, returned⟩ := all call (List.mem_of_getElem? here)
    rw [returned] at inside
    exact inside
  · intro noRequests noReplies idle call member
    have noneLeft : state.calls.countP (unanswered call.query) = 0 := by
      rw [valid.counted, noRequests, noReplies]
      rfl
    have given : call.given = true := by
      have here := List.countP_eq_zero.mp noneLeft call member
      simpa [unanswered] using here
    obtain ⟨index, here⟩ := List.mem_iff_getElem?.mp member
    have ok := valid.calls index call here
    unfold CallOk at ok
    constructor
    · intro requested
      rw [requested] at ok
      rw [ok.1] at given
      cases given
    · intro waiting
      rw [waiting] at ok
      rcases ok with ⟨free, -, -⟩ | ⟨-, value, -, ⟨bucket, -⟩ | ⟨-, setting⟩⟩
      · rw [free] at given
        cases given
      · rw [bucket]
        rfl
      · rw [idle] at setting
        cases setting

variable {calls : List Call}

theorem getElem?_set_cases {index other : Nat} {changed call : Call}
    (found : (calls.set index changed)[other]? = some call) :
    (other = index ∧ call = changed) ∨ (other ≠ index ∧ calls[other]? = some call) := by
  rw [List.getElem?_set] at found
  split at found
  · rename_i same
    split at found
    · exact Or.inl ⟨same.symm, (Option.some.inj found).symm⟩
    · cases found
  · rename_i different
    exact Or.inr ⟨Ne.symm different, found⟩

theorem getElem?_set_here (here : calls[index]? = some call) (changed : Call) :
    (calls.set index changed)[index]? = some changed := by
  have bound : index < calls.length := (List.getElem?_eq_some_iff.mp here).1
  simp [bound]

theorem countP_set_same {call changed : Call}
    (here : calls[index]? = some call) (test : Call → Bool) (same : test changed = test call) :
    (calls.set index changed).countP test = calls.countP test := by
  obtain ⟨bound, rfl⟩ := List.getElem?_eq_some_iff.mp here
  rw [List.countP_set bound, same]
  have one := List.boole_getElem_le_countP (p := test) bound
  omega

theorem Valid.change (valid : Valid threads state)
    {call changed : Call} (here : state.calls[index]? = some call)
    (query : changed.query = call.query) (given : changed.given = call.given)
    (ok : CallOk state.monitor state.answered index changed)
    (inTable : Phase.InTable call.phase → Phase.InTable changed.phase) :
    Valid threads { state with calls := state.calls.set index changed } := by
  constructor
  · exact valid.alive
  · intro other another found
    rcases getElem?_set_cases found with ⟨rfl, rfl⟩ | ⟨-, before⟩
    · exact ok
    · exact valid.calls other another before
  · intro other value setting
    rw [List.length_set]
    exact valid.bound other value setting
  · exact valid.nodup
  · intro other member
    obtain ⟨another, there, inside⟩ := valid.inTable other member
    by_cases same : other = index
    · subst same
      obtain rfl := Option.some.inj (here.symm.trans there)
      exact ⟨changed, getElem?_set_here here changed, inTable inside⟩
    · refine ⟨another, ?_, inside⟩
      simpa [Ne.symm same] using there
  · intro asked
    have same : unanswered asked changed = unanswered asked call := by
      rw [unanswered, unanswered, query, given]
    exact (countP_set_same here (unanswered asked) same).trans (valid.counted asked)
  · have same := countP_set_same here Call.given given
    change (state.calls.set index changed).countP Call.given + _ = _
    rw [same]
    exact valid.once
  · exact valid.replies

variable {state next : State}

theorem change_eq_some {step : Call → Option Call} : state.change index step = some next ↔
      ∃ call changed, state.calls[index]? = some call ∧ step call = some changed ∧
        next = { state with calls := state.calls.set index changed } := by
  unfold State.change
  constructor
  · intro stepped
    obtain ⟨call, here, rest⟩ := Option.bind_eq_some_iff.mp stepped
    obtain ⟨changed, ran, returned⟩ := Option.bind_eq_some_iff.mp rest
    exact ⟨call, changed, here, ran, (Option.some.inj returned).symm⟩
  · rintro ⟨call, changed, here, ran, rfl⟩
    simp [here, ran]

section

variable (valid : Valid threads state)
include valid

theorem Valid.send {query : Query} (stepped : state.send threads query = some next) : Valid threads next := by
  unfold State.send at stepped
  split at stepped
  · cases stepped
    have old : ∀ index call, (state.calls ++ [⟨query, .requested, false, none, false⟩])[index]? =
        some call → state.calls[index]? = some call ∨
          call = ⟨query, .requested, false, none, false⟩ ∧ index = state.calls.length := by
      intro index call found
      rw [List.getElem?_append] at found
      split at found
      · exact Or.inl found
      · rename_i beyond
        rw [List.getElem?_singleton] at found
        split at found
        · rename_i first
          exact Or.inr ⟨(Option.some.inj found).symm, by omega⟩
        · cases found
    constructor
    · exact valid.alive
    · intro index call found
      rcases old index call found with before | ⟨rfl, rfl⟩
      · exact valid.calls index call before
      · exact ⟨rfl, rfl, fun value setting => absurd (valid.bound _ value setting) (Nat.lt_irrefl _)⟩
    · intro index value setting
      rw [List.length_append]
      exact Nat.lt_add_right _ (valid.bound index value setting)
    · exact valid.nodup
    · intro index member
      obtain ⟨call, here, inside⟩ := valid.inTable index member
      refine ⟨call, ?_, inside⟩
      have bound := (List.getElem?_eq_some_iff.mp here).1
      rw [List.getElem?_append_left bound]
      exact here
    · intro asked
      have before := valid.counted asked
      simp only [List.countP_append, List.count_append, before]
      have same : [(⟨query, .requested, false, none, false⟩ : Call)].countP (unanswered asked) =
          [query].count asked := by
        simp [unanswered, List.count, List.countP_cons, List.countP_nil]
      rw [same]
      omega
    · simpa using valid.once
    · exact valid.replies
  · cases stepped

theorem Valid.enter (stepped : state.enter index = some next) : Valid threads next := by
  unfold State.enter at stepped
  split at stepped
  · obtain ⟨middle, changes, returned⟩ := Option.bind_eq_some_iff.mp stepped
    obtain ⟨call, changed, here, ran, rfl⟩ := change_eq_some.mp changes
    cases returned
    split at ran
    · rename_i requested
      cases ran
      have ok := valid.calls index call here
      unfold CallOk at ok
      rw [requested] at ok
      have kept : Valid threads { state with
          calls := state.calls.set index { call with phase := .waiting } } :=
        valid.change here rfl rfl (Or.inl ok) (fun _ => trivial)
      have absent : index ∉ state.table := by
        intro member
        obtain ⟨other, there, inside⟩ := valid.inTable index member
        obtain rfl := Option.some.inj (here.symm.trans there)
        rw [requested] at inside
        exact inside
      refine ⟨kept.alive, kept.calls, kept.bound, ?_, ?_, kept.counted, kept.once, kept.replies⟩
      · refine List.nodup_append.mpr ⟨valid.nodup, List.pairwise_singleton _ _, ?_⟩
        rintro old member other last rfl
        rw [List.mem_singleton.mp last] at member
        exact absent member
      · intro other member
        rcases List.mem_append.mp member with old | last
        · exact kept.inTable other old
        · obtain rfl := List.mem_singleton.mp last
          exact ⟨_, getElem?_set_here here _, trivial⟩
    · cases ran
  · cases stepped

theorem Valid.take (stepped : state.change index Call.take = some next) : Valid threads next := by
  obtain ⟨call, changed, here, ran, rfl⟩ := change_eq_some.mp stepped
  unfold Call.take at ran
  split at ran
  · rename_i value waiting bucket
    cases ran
    have ok := valid.calls index call here
    unfold CallOk at ok
    rw [waiting] at ok
    rcases ok with ⟨-, empty, -⟩ | ⟨given, other, member, ⟨full, unset⟩ | ⟨empty, -⟩⟩
    · rw [empty] at bucket
      cases bucket
    · obtain rfl := Option.some.inj (full.symm.trans bucket)
      exact valid.change here rfl rfl ⟨given, rfl, unset, member⟩ fun _ => trivial
    · rw [empty] at bucket
      cases bucket
  · cases ran

theorem Valid.readFlag (stepped : state.change index Call.readFlag = some next) : Valid threads next := by
  obtain ⟨call, changed, here, ran, rfl⟩ := change_eq_some.mp stepped
  unfold Call.readFlag at ran
  split at ran
  · rename_i value taken
    cases ran
    have ok := valid.calls index call here
    unfold CallOk at ok
    rw [taken] at ok
    exact valid.change here rfl rfl ⟨ok.1, ok.2.2.1, ok.2.2.2⟩ fun _ => trivial
  · cases ran

theorem Valid.leave (stepped : state.leave index = some next) : Valid threads next := by
  unfold State.leave at stepped
  split at stepped
  · obtain ⟨middle, changes, returned⟩ := Option.bind_eq_some_iff.mp stepped
    obtain ⟨call, changed, here, ran, rfl⟩ := change_eq_some.mp changes
    cases returned
    unfold Call.leave at ran
    split at ran
    · rename_i found value flagged
      cases ran
      have ok := valid.calls index call here
      unfold CallOk at ok
      rw [flagged] at ok
      constructor
      · exact valid.alive
      · intro other another there
        rcases getElem?_set_cases there with ⟨rfl, rfl⟩ | ⟨-, before⟩
        · exact ok
        · exact valid.calls other another before
      · intro other value setting
        rw [List.length_set]
        exact valid.bound other value setting
      · exact valid.nodup.erase index
      · intro other member
        obtain ⟨different, old⟩ := (List.Nodup.mem_erase_iff valid.nodup).mp member
        obtain ⟨another, there, inside⟩ := valid.inTable other old
        refine ⟨another, ?_, inside⟩
        simpa [Ne.symm different] using there
      · intro asked
        have same := @countP_set_same _ _ _ { call with phase := .returned found value } here
          (unanswered asked) rfl
        exact same.trans (valid.counted asked)
      · have same := @countP_set_same _ _ _ { call with phase := .returned found value } here Call.given rfl
        change (state.calls.set index { call with phase := .returned found value }).countP Call.given + _ = _
        rw [same]
        exact valid.once
      · exact valid.replies
    · cases ran
  · cases stepped

theorem Valid.answer {reply : Reply} (stepped : state.answer reply = some next) : Valid threads next := by
  unfold State.answer at stepped
  split at stepped
  · rename_i asked
    cases stepped
    have more : ∀ other ∈ state.answered, other ∈ state.answered ++ [reply] :=
      fun other member => List.mem_append_left _ member
    constructor
    · exact valid.alive
    · exact fun index call here => (valid.calls index call here).mono more
    · exact valid.bound
    · exact valid.nodup
    · exact valid.inTable
    · intro query
      have before := valid.counted query
      have positive : query = reply.query → 0 < state.requests.count reply.query :=
        fun _ => List.count_pos_iff.mpr asked.1
      simp only [List.countP_append, List.countP_cons, List.countP_nil, List.count_erase, before]
      by_cases same : query = reply.query
      · subst same
        have any := positive rfl
        simp
        omega
      · simp [Ne.symm same]
    · have before := valid.once
      simp only [List.length_append, List.length_cons, List.length_nil]
      omega
    · intro other member
      rcases List.mem_append.mp member with old | new
      · exact ⟨more other (valid.replies other old).1, (valid.replies other old).2⟩
      · obtain rfl := List.mem_singleton.mp new
        exact ⟨List.mem_append_right _ new, asked.2⟩
  · cases stepped

end

theorem find_eq_some {thread : ThreadName} {global : String}
    (found : state.find thread global = some index) (here : state.calls[index]? = some call) :
    index ∈ state.table ∧ call.query.thread = thread ∧ call.query.global = global := by
  have member := List.mem_of_find?_eq_some found
  have isFor := List.find?_some found
  unfold State.isFor at isFor
  rw [here] at isFor
  simp only [Bool.and_eq_true, decide_eq_true_eq] at isFor
  exact ⟨member, isFor⟩

section

variable (valid : Valid threads state)
include valid

theorem Valid.waiting (member : index ∈ state.table)
    (here : state.calls[index]? = some call) (free : call.given = false) :
    call.phase = .waiting ∧ call.bucket = none ∧ Unset state.monitor index := by
  have ok := valid.calls index call here
  obtain ⟨other, there, inside⟩ := valid.inTable index member
  obtain rfl := Option.some.inj (here.symm.trans there)
  obtain ⟨query, phase, found, bucket, given⟩ := call
  change given = false at free
  subst free
  cases phase with
  | requested => exact inside.elim
  | waiting =>
    rcases ok with ⟨-, empty, unset⟩ | ⟨given, -⟩
    · exact ⟨rfl, empty, unset⟩
    · cases given
  | taken value => exact absurd ok.1 (by simp)
  | flagged found value => exact absurd ok.1 (by simp)
  | returned found value => exact inside.elim

theorem Valid.setting (idle : state.monitor = .idle) {reply : Reply} {rest : List Reply}
    (replies : state.replies = reply :: rest)
    (member : index ∈ state.table) (here : state.calls[index]? = some call)
    (free : call.given = false) (same : call.query = reply.query) : Valid threads { state with
      calls := state.calls.set index { call with found := reply.found, given := true }
      replies := rest
      monitor := .setting index reply.value } := by
  obtain ⟨waiting, empty, -⟩ := valid.waiting member here free
  have asked : reply ∈ state.replies := by
    rw [replies]
    exact List.mem_cons_self
  have bound : index < state.calls.length := (List.getElem?_eq_some_iff.mp here).1
  have itself : state.calls[index] = call := (List.getElem?_eq_some_iff.mp here).2
  constructor
  · exact valid.alive
  · intro other another there
    rcases getElem?_set_cases there with ⟨rfl, rfl⟩ | ⟨different, before⟩
    · unfold CallOk
      rw [waiting]
      refine Or.inr ⟨rfl, reply.value, ?_, Or.inr ⟨empty, rfl⟩⟩
      change ⟨call.query, reply.found, reply.value⟩ ∈ state.answered
      rw [same]
      exact (valid.replies reply asked).1
    · refine (valid.calls other another before).monitor ?_ (unset_setting different _) fun _ old => old
      rw [idle]
      exact unset_idle other
  · intro other value set
    obtain ⟨rfl, -⟩ := Monitor.setting.inj set
    rw [List.length_set]
    exact bound
  · exact valid.nodup
  · intro other inTable
    obtain ⟨another, there, inside⟩ := valid.inTable other inTable
    by_cases first : other = index
    · subst first
      refine ⟨_, getElem?_set_here here _, ?_⟩
      change Phase.InTable call.phase
      rw [waiting]
      trivial
    · refine ⟨another, ?_, inside⟩
      simpa [Ne.symm first] using there
  · intro query
    have before := valid.counted query
    have one := @List.boole_getElem_le_countP _ (unanswered query) _ _ bound
    rw [replies, List.countP_cons] at before
    rw [List.countP_set bound]
    rw [itself] at one ⊢
    simp only [unanswered, free, same, Bool.not_false, Bool.not_true, Bool.and_true,
      Bool.and_false, decide_eq_true_eq, Bool.false_eq_true, if_false] at one before ⊢
    by_cases asks : reply.query = query
    · simp only [asks, if_true] at one before ⊢
      omega
    · simp only [asks, if_false] at one before ⊢
      omega
  · have before := valid.once
    rw [replies, List.length_cons] at before
    change (state.calls.set index _).countP Call.given + rest.length = _
    rw [List.countP_set bound, itself, free]
    simp only [if_true, Bool.false_eq_true, if_false]
    omega
  · intro other old
    refine valid.replies other ?_
    rw [replies]
    exact List.mem_cons_of_mem _ old

theorem Valid.handle (safe : Safe threads state .handle)
    (stepped : state.handle threads = some next) : Valid threads next := by
  unfold State.handle at stepped
  split at stepped
  · rename_i reply rest idle replies
    obtain ⟨only, empty, index, call, found, here, free, kind⟩ := safe idle reply rest replies
    obtain ⟨member, thread, global⟩ := find_eq_some found here
    have asked : reply ∈ state.replies := by
      rw [replies]
      exact List.mem_cons_self
    have same : call.query = reply.query := by
      have kinds := kind.trans (valid.replies reply asked).2
      exact Query.ext thread global kinds
    simp only [only, found, here, kind, if_true, provided_of_empty empty] at stepped
    obtain rfl := Option.some.inj stepped
    exact valid.setting idle replies member here free same
  · cases stepped

theorem Valid.provide (stepped : state.provide = some next) : Valid threads next := by
  unfold State.provide at stepped
  split at stepped
  · cases stepped
  · rename_i index value setting
    obtain ⟨middle, changes, returned⟩ := Option.bind_eq_some_iff.mp stepped
    obtain ⟨call, changed, here, ran, rfl⟩ := change_eq_some.mp changes
    cases returned
    split at ran
    · rename_i empty
      cases ran
      have ok := valid.calls index call here
      rw [setting] at ok
      obtain ⟨waiting, given, member⟩ := ok.set
      constructor
      · exact valid.alive
      · intro other another there
        rcases getElem?_set_cases there with ⟨rfl, rfl⟩ | ⟨different, before⟩
        · unfold CallOk
          rw [waiting]
          exact Or.inr ⟨given, value, member, Or.inl ⟨rfl, unset_idle other⟩⟩
        · refine (valid.calls other another before).monitor ?_ (unset_idle other) fun _ old => old
          rw [setting]
          exact unset_setting different value
      · intro other another set
        cases set
      · exact valid.nodup
      · intro other member
        obtain ⟨another, there, inside⟩ := valid.inTable other member
        by_cases same : other = index
        · subst same
          obtain rfl := Option.some.inj (here.symm.trans there)
          exact ⟨_, getElem?_set_here here _, inside⟩
        · refine ⟨another, ?_, inside⟩
          simpa [Ne.symm same] using there
      · intro asked
        have same := @countP_set_same _ _ _ { call with bucket := some value } here (unanswered asked) rfl
        exact same.trans (valid.counted asked)
      · have same := @countP_set_same _ _ _ { call with bucket := some value } here Call.given rfl
        change (state.calls.set index { call with bucket := some value }).countP Call.given + _ = _
        rw [same]
        exact valid.once
      · exact valid.replies
    · cases ran

end

theorem valid_step (state : State) (action : Action) (next : State)
    (valid : Valid threads state) (safe : Safe threads state action)
    (stepped : State.step threads state action = some next) : Valid threads next := by
  unfold State.step at stepped
  rw [if_pos valid.alive] at stepped
  cases action with
  | send query => exact valid.send stepped
  | enter index => exact valid.enter stepped
  | take index => exact valid.take stepped
  | readFlag index => exact valid.readFlag stepped
  | leave index => exact valid.leave stepped
  | answer query found value => exact valid.answer stepped
  | ignore query => exact safe.elim
  | handle => exact valid.handle safe stepped
  | provide => exact valid.provide stepped

/-- In a run in which every reply is handled safely, every call gets its answer. -/
theorem answers_ok {threads : List ThreadName} {actions : List Action} {final : State}
    (ran : Runs.run (State.step threads) start actions = some final)
    (safe : Runs.Along (Safe threads) (State.step threads) start actions) : Good final :=
  (Runs.run_invariant_along (Valid threads) valid_step (valid_start threads) safe ran).good

theorem Valid.returned_of_stuck (valid : Valid threads state)
    (stuck : ∀ action, (∀ query, action ≠ .send query) → State.step threads state action = none) :
    ∀ call ∈ state.calls, ∃ found value,
      call.phase = .returned found value ∧ ⟨call.query, found, value⟩ ∈ state.answered := by
  unfold State.step at stuck
  simp only [valid.alive, if_true] at stuck
  have idle : state.monitor = .idle := by
    cases setting : state.monitor with
    | idle => rfl
    | setting index value =>
      obtain ⟨call, here⟩ : ∃ call, state.calls[index]? = some call :=
        ⟨_, List.getElem?_eq_getElem (valid.bound index value setting)⟩
      have ok := valid.calls index call here
      rw [setting] at ok
      have phase := ok.set.1
      unfold CallOk at ok
      rw [phase] at ok
      have bucket : call.bucket = none := by
        rcases ok with ⟨-, bucket, -⟩ | ⟨-, other, -, ⟨-, unset⟩ | ⟨bucket, -⟩⟩
        exacts [bucket, absurd rfl (unset value), bucket]
      have moved := stuck .provide (by simp)
      simp [State.provide, setting, State.change, here, bucket] at moved
  have replies : state.replies = [] := by
    by_contra waiting
    obtain ⟨reply, rest, replies⟩ := List.exists_cons_of_ne_nil waiting
    have moved := stuck .handle (by simp)
    simp only [State.handle, idle, replies] at moved
    split at moved
    · split at moved
      · cases moved
      · rename_i index found
        obtain ⟨call, here, -⟩ := valid.inTable index (List.mem_of_find?_eq_some found)
        rw [here] at moved
        dsimp only at moved
        split at moved <;> cases moved
    · cases moved
  have requests : state.requests = [] := by
    by_contra waiting
    obtain ⟨query, member⟩ := List.exists_mem_of_ne_nil _ waiting
    obtain ⟨value, kind⟩ : ∃ value : Value, value.kind = query.kind := by
      cases query.kind
      exacts [⟨.integer 0, rfl⟩, ⟨.string "", rfl⟩, ⟨.job [], rfl⟩]
    have moved := stuck (.answer query true value) (by simp)
    simp [State.answer, member, kind] at moved
  intro call member
  obtain ⟨index, here⟩ := List.mem_iff_getElem?.mp member
  have woken := valid.good.woken requests replies idle call member
  cases phase : call.phase with
  | requested => exact absurd phase woken.1
  | waiting =>
    obtain ⟨value, bucket⟩ := Option.isSome_iff_exists.mp (woken.2 phase)
    have moved := stuck (.take index) (by simp)
    simp [State.change, here, Call.take, phase, bucket] at moved
  | taken value =>
    have moved := stuck (.readFlag index) (by simp)
    simp [State.change, here, Call.readFlag, phase] at moved
  | flagged found value =>
    have moved := stuck (.leave index) (by simp)
    simp [State.leave, idle, State.change, here, Call.leave, phase] at moved
  | returned found value => exact ⟨found, value, rfl, valid.good.answered call member found value phase⟩

def rank : ThreadName := ⟨1, "node1", 4242, none⟩

def jobIdentifier (kind : Kind) : Query := ⟨rank, "totalview_jobid", kind⟩

def inTime : List Action :=
  [.send (jobIdentifier .integer), .enter 0, .answer (jobIdentifier .integer) true (.integer 7),
    .handle, .provide, .take 0, .readFlag 0, .leave 0]

theorem inTime_safe : Runs.Along (Safe [rank]) (State.step [rank]) start inTime := by
  refine Runs.along_cons trivial rfl (Runs.along_cons trivial rfl (Runs.along_cons trivial rfl ?_))
  refine Runs.along_cons ?_ rfl ?_
  · intro _ reply rest replies
    obtain ⟨rfl, -⟩ := List.cons.inj replies
    refine ⟨rfl, ?_, 0, _, rfl, rfl, rfl, rfl⟩
    intro text isString
    cases isString
  · refine Runs.along_cons trivial rfl (Runs.along_cons trivial rfl ?_)
    exact Runs.along_cons trivial rfl (Runs.along_cons trivial rfl trivial)

theorem answers_ok_inTime : ∃ final, Runs.run (State.step [rank]) start inTime = some final ∧ Good final :=
  ⟨_, rfl, answers_ok rfl inTime_safe⟩

def fastReply : List Action :=
  [.send (jobIdentifier .integer), .answer (jobIdentifier .integer) true (.integer 7), .handle]

theorem fastReply_fails :
    ¬ ∀ final, Runs.run (State.step [rank]) start fastReply = some final → Good final := by
  intro claimed
  have alive := (claimed _ rfl).alive
  cases alive

end State

end GlobalTable

end OpenSpeedShop.Frontend
