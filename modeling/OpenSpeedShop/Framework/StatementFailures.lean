import OpenSpeedShop.Framework.Database

/-!
A statement whose step fails, and the rollback that follows. SQLite keeps the
error of the last step of each statement, which is what resetting it returns.
-/

namespace OpenSpeedShop.Database

variable {Contents : Type}

structure Session (Contents : Type) where
  handle : Handle Contents
  failed : Nat → Option StepFailure

def resetReply : Option StepFailure → ResetReply
  | none => .ok
  | some .readOnly => .readOnly
  | some _ => .other

def pending : List (Option Nat) → List Nat
  | some stmt :: below => stmt :: pending below
  | _ => []

def enclosing : List (Option Nat) → List (Option Nat)
  | [] => []
  | none :: below => below
  | some _ :: below => enclosing below

def nestingLevel (stack : List (Option Nat)) : Nat := stack.count none

inductive StepResult
  | row
  | done
  | failed (failure : StepFailure)
deriving DecidableEq

namespace StepResult

def reply : StepResult → StepReply
  | row => .row
  | done => .done .ok
  | failed failure => failure.reply

def failure? : StepResult → Option StepFailure
  | failed failure => some failure
  | _ => none

end StepResult

/-- The operations on a database, with those replies that do not follow from what
happened before. -/
inductive Operation (Contents : Type)
  | beginTransaction (willModify : Bool) (reply : BeginReply)
  | prepareStatement (statement : String) (reply : PrepareReply)
  | executeStatement (effect : Contents → Contents) (result : StepResult)
  | commitTransaction (executed : Bool)
  | rollbackTransaction (executed : Bool)

namespace Session

def opened (name : String) (contents : Contents) : Session Contents :=
  ⟨Database.opened name contents, fun _ => none⟩

def stepped (session : Session Contents) (failure : Option StepFailure) (stmt : Nat) : Option StepFailure :=
  if session.handle.dmTransaction.head? = some (some stmt) then failure else session.failed stmt

def ended (session : Session Contents) (stmt : Nat) : Option StepFailure :=
  if stmt ∈ pending session.handle.dmTransaction then none else session.failed stmt

def endReply (failed : Nat → Option StepFailure) (executed : Bool) : EndReply :=
  ⟨fun stmt => resetReply (failed stmt), executed⟩

def call (session : Session Contents) : Operation Contents → Call Contents
  | .beginTransaction willModify reply => .beginTransaction willModify reply
  | .prepareStatement statement reply => .prepareStatement statement reply
  | .executeStatement effect result => .executeStatement effect result.reply
  | .commitTransaction executed => .commitTransaction (endReply session.failed executed)
  | .rollbackTransaction executed => .rollbackTransaction (endReply session.failed executed)

def failedAfter (session : Session Contents) : Operation Contents → Nat → Option StepFailure
  | .executeStatement _ result => session.stepped result.failure?
  | .commitTransaction _ | .rollbackTransaction _ => session.ended
  | _ => session.failed

def step (session : Session Contents) (operation : Operation Contents) : Option (Session Contents) :=
  ((session.call operation).step session.handle).map fun handle =>
    ⟨handle, session.failedAfter operation⟩

/-- `executeStatement` as the last statement of a block that `END_TRANSACTION` ends: what is
thrown is caught, the transaction is rolled back, and it is thrown again. -/
def executeInBlock (session : Session Contents) (effect : Contents → Contents)
    (failure : StepFailure) : Act Contents Bool :=
  Procedure.onException (executeStatement effect failure.reply)
    (rollbackTransaction (endReply (session.stepped (some failure)) true))

end Session

variable {stack below : List (Option Nat)}

theorem popTransaction_eq_enclosing {reply : EndReply}
    (popped : popTransaction reply stack = some below) : below = enclosing stack := by
  induction stack with
  | nil => cases popped
  | cons top rest ih =>
    cases top with
    | none => exact (Option.some.inj popped).symm
    | some stmt =>
      rw [popTransaction] at popped
      cases reset : reply.reset stmt with
      | ok | readOnly =>
        rw [reset] at popped
        exact ih popped
      | other =>
        rw [reset] at popped
        cases popped

variable {stack : List (Option Nat)}

theorem popTransaction_iff {reply : EndReply} (marked : none ∈ stack) :
    popTransaction reply stack = some (enclosing stack) ↔
      ∀ stmt ∈ pending stack, reply.reset stmt ≠ .other := by
  induction stack with
  | nil => cases marked
  | cons top rest ih =>
    cases top with
    | none => simp [popTransaction, enclosing, pending]
    | some stmt =>
      have below : none ∈ rest := by simpa using marked
      rw [popTransaction, enclosing, pending, List.forall_mem_cons, ← ih below]
      cases reply.reset stmt <;> simp

theorem nestingLevel_enclosing (marked : none ∈ stack) :
    nestingLevel (enclosing stack) + 1 = nestingLevel stack := by
  unfold nestingLevel
  induction stack with
  | nil => cases marked
  | cons top rest ih =>
    cases top with
    | none => simp [enclosing]
    | some stmt =>
      have below : none ∈ rest := by simpa using marked
      rw [enclosing, ih below]
      simp

theorem mem_of_mem_pending {stmt : Nat} (member : stmt ∈ pending stack) : some stmt ∈ stack := by
  induction stack with
  | nil => cases member
  | cons top rest ih =>
    cases top with
    | none => cases member
    | some first =>
      rcases List.mem_cons.mp member with rfl | later
      · exact List.mem_cons_self
      · exact List.mem_cons_of_mem _ (ih later)

def Marked (stack : List (Option Nat)) : Prop := ∀ last ∈ stack.getLast?, last = none

theorem Marked.mem (marked : Marked stack) (nonempty : stack ≠ []) : none ∈ stack := by
  have last := List.getLast?_eq_some_getLast nonempty
  have bottom := marked _ last
  rw [← bottom]
  exact List.getLast_mem nonempty

theorem Marked.of_suffix (marked : Marked stack) (suffix : below <:+ stack) : Marked below := by
  obtain ⟨front, rfl⟩ := suffix
  intro last bottom
  refine marked last ?_
  rw [List.getLast?_append, Option.mem_def.mp bottom]
  rfl

theorem Marked.push (marked : Marked stack) (stmt : Nat)
    (nonempty : stack ≠ []) : Marked (some stmt :: stack) := by
  intro last bottom
  rw [List.getLast?_cons_of_ne_nil nonempty] at bottom
  exact marked last bottom

theorem Marked.step {handle next : Handle Contents} (marked : Marked handle.dmTransaction)
    {call : Call Contents} (stepped : call.step handle = some next) : Marked next.dmTransaction := by
  cases call with
  | beginTransaction willModify reply =>
    obtain ⟨stack, -⟩ := begin_cases stepped
    rw [stack]
    cases below : handle.dmTransaction with
    | nil => simp [Marked]
    | cons top rest =>
      rw [below] at marked
      simpa [Marked] using marked
  | prepareStatement statement reply =>
    have begun : handle.dmTransaction ≠ [] := by
      intro closed
      simp [Call.step, prepareStatement, closed, Outcome.state?] at stepped
    obtain ⟨_, _, _, same | ⟨stmt, _, _, same⟩ | ⟨stack, -⟩⟩ := prepare_cases stepped
    · rwa [same]
    · rw [same]
      exact marked.push stmt begun
    · rw [stack]
      exact marked.push _ begun
  | executeStatement effect reply =>
    obtain ⟨_, _, _, _, _, stmt, below, stack, kept | popped⟩ := execute_cases stepped
    · rwa [kept]
    · rw [popped]
      exact marked.of_suffix (stack ▸ List.suffix_cons _ _)
  | commitTransaction reply =>
    obtain ⟨popped, -⟩ := commit_cases stepped
    exact marked.of_suffix (popTransaction_suffix popped)
  | rollbackTransaction reply =>
    obtain ⟨popped, -⟩ := rollback_cases stepped
    exact marked.of_suffix (popTransaction_suffix popped)

structure SessionOk (session : Session Contents) : Prop where
  stack : StackOk session.handle
  marked : Marked session.handle.dmTransaction

theorem SessionOk.step {session next : Session Contents} (ok : SessionOk session)
    {operation : Operation Contents} (ran : session.step operation = some next) : SessionOk next := by
  obtain ⟨handle, called, rfl⟩ := Option.map_eq_some_iff.mp ran
  exact ⟨ok.stack.step called, ok.marked.step called⟩

variable {session : Session Contents}

theorem sessionOk_run {name : String} {contents : Contents} {operations : List (Operation Contents)}
    (ran : Runs.run Session.step (Session.opened name contents) operations = some session) :
    SessionOk session := by
  have opened : SessionOk (Session.opened name contents) :=
    ⟨stackOk_opened name contents, by simp [Marked, Session.opened, Database.opened]⟩
  exact Runs.run_invariant SessionOk opened (fun _ _ _ ok stepped => ok.step stepped) ran

/-- The block ends with what the statement threw, its transaction is gone, and what it did is
undone or can no longer be committed. -/
structure RollsBack (session : Session Contents) (effect : Contents → Contents)
    (failure : StepFailure) (error : DatabaseException) (after : Handle Contents) : Prop where
  rethrown : session.executeInBlock effect failure session.handle = .thrown error after
  stack : after.dmTransaction = enclosing session.handle.dmTransaction
  level : nestingLevel after.dmTransaction + 1 = nestingLevel session.handle.dmTransaction
  undone : after.dmTransaction = [] → after.dmDatabase.working = session.handle.dmDatabase.committed
  uncommittable : after.dmTransaction ≠ [] → after.dmIsCommittable = false

variable {failure : StepFailure} {effect : Contents → Contents}

variable {error : DatabaseException}

theorem executeStatement_throws {handle thrown : Handle Contents}
    (throws : executeStatement effect failure.reply handle = .thrown error thrown) :
    thrown = handle ∧ ∃ stmt below, handle.dmTransaction = some stmt :: below := by
  unfold executeStatement at throws
  split at throws
  · rename_i stmt below stack
    cases failure with
    | other => cases throws
    | readOnly | error | busy =>
      cases throws
      exact ⟨rfl, stmt, below, stack⟩
  · cases throws

theorem resetReply_ne_other {failure : Option StepFailure} :
    resetReply failure ≠ .other ↔ failure = none ∨ failure = some .readOnly := by
  rcases failure with - | failure
  · simp [resetReply]
  · cases failure <;> simp [resetReply]

theorem resets_iff (ok : SessionOk session) {stmt : Nat}
    {below : List (Option Nat)} (stack : session.handle.dmTransaction = some stmt :: below)
    (failure : StepFailure) : (∀ other ∈ pending session.handle.dmTransaction,
        resetReply (session.stepped (some failure) other) ≠ .other) ↔
      failure = .readOnly ∧ ∀ other ∈ pending below,
        session.failed other = none ∨ session.failed other = some .readOnly := by
  have others : ∀ other ∈ pending below, session.stepped (some failure) other = session.failed other := by
    intro other member
    have different : stmt ≠ other := by
      rintro rfl
      have once := ok.stack.once stmt
      rw [stack, List.count_cons_self] at once
      have twice := List.count_pos_iff.mpr (mem_of_mem_pending member)
      omega
    simp [Session.stepped, stack, different]
  have top : session.stepped (some failure) stmt = some failure := by
    simp [Session.stepped, stack]
  rw [stack, pending, List.forall_mem_cons, top, resetReply_ne_other]
  refine and_congr (by simp) (forall₂_congr fun other member => ?_)
  rw [others other member, resetReply_ne_other]

theorem executeInBlock_of_popped {thrown : Handle Contents}
    (throws : executeStatement effect failure.reply session.handle = .thrown error thrown)
    (marked : none ∈ session.handle.dmTransaction)
    (popped : popTransaction (Session.endReply (session.stepped (some failure)) true)
      session.handle.dmTransaction = some (enclosing session.handle.dmTransaction)) :
    ∃ after, RollsBack session effect failure error after := by
  obtain ⟨rfl, -⟩ := executeStatement_throws throws
  have level := nestingLevel_enclosing marked
  by_cases outermost : enclosing session.handle.dmTransaction = []
  · refine ⟨issue .rollback { session.handle with dmTransaction := [] }, ?_, ?_, ?_, ?_, ?_⟩
    · have executed : (Session.endReply (session.stepped (some failure)) true).executed = true := rfl
      simp [Session.executeInBlock, Procedure.onException, throws, rollbackTransaction, popped,
        outermost, executed]
    · simp [outermost]
    · rw [outermost] at level
      exact level
    · exact fun _ => rfl
    · exact fun nested => absurd rfl nested
  · refine ⟨{ session.handle with
      dmTransaction := enclosing session.handle.dmTransaction
      dmIsCommittable := false }, ?_, rfl, level, ?_, ?_⟩
    · simp [Session.executeInBlock, Procedure.onException, throws, rollbackTransaction, popped, outermost]
    · exact fun empty => absurd empty outermost
    · exact fun _ => rfl

theorem RollsBack.popped {thrown after : Handle Contents}
    (rollsBack : RollsBack session effect failure error after)
    (throws : executeStatement effect failure.reply session.handle = .thrown error thrown) :
    popTransaction (Session.endReply (session.stepped (some failure)) true)
      session.handle.dmTransaction = some (enclosing session.handle.dmTransaction) := by
  obtain ⟨rfl, -⟩ := executeStatement_throws throws
  have rethrown := rollsBack.rethrown
  cases popped : popTransaction (Session.endReply (session.stepped (some failure)) true)
      session.handle.dmTransaction with
  | none =>
    simp [Session.executeInBlock, Procedure.onException, throws, rollbackTransaction, popped] at rethrown
  | some below => rw [popTransaction_eq_enclosing popped]

/-- After any operations a failing statement is rolled back and its exception passed on exactly
when it may not write, and no statement below it has failed otherwise. -/
theorem executeInBlock_rollsBack_iff {name : String} {contents : Contents}
    {operations : List (Operation Contents)} {session : Session Contents}
    (ran : Runs.run Session.step (Session.opened name contents) operations = some session)
    {effect : Contents → Contents} {failure : StepFailure} {error : DatabaseException}
    {thrown : Handle Contents}
    (throws : executeStatement effect failure.reply session.handle = .thrown error thrown) :
    (∃ after, RollsBack session effect failure error after) ↔
      failure = .readOnly ∧ ∀ stmt ∈ (pending session.handle.dmTransaction).tail,
        session.failed stmt = none ∨ session.failed stmt = some .readOnly := by
  have ok := sessionOk_run ran
  obtain ⟨-, stmt, below, stack⟩ := executeStatement_throws throws
  have marked : none ∈ session.handle.dmTransaction := ok.marked.mem (by simp [stack])
  have resets := resets_iff ok stack failure
  have others : (pending session.handle.dmTransaction).tail = pending below := by
    rw [stack]
    rfl
  rw [others, ← resets]
  constructor
  · rintro ⟨after, rollsBack⟩
    exact (popTransaction_iff marked).mp (rollsBack.popped throws)
  · intro reset
    exact executeInBlock_of_popped throws marked ((popTransaction_iff marked).mpr reset)

def onePrepared : List (Operation Unit) :=
  [.beginTransaction true .ok, .prepareStatement "DELETE FROM Threads;" .ok]

theorem onePrepared_throws (thrown : failure ≠ .other) :
    ∃ session error after, Runs.run Session.step (Session.opened "a.openss" ()) onePrepared =
        some session ∧ pending session.handle.dmTransaction = [0] ∧
      executeStatement id failure.reply session.handle = .thrown error after := by
  cases failure with
  | other => exact absurd rfl thrown
  | readOnly | error | busy => exact ⟨_, _, _, rfl, rfl, rfl⟩

theorem executeInBlock_rollsBack_iff_readOnly :
    ∃ session error after, Runs.run Session.step (Session.opened "a.openss" ()) onePrepared =
        some session ∧ RollsBack session id .readOnly error after := by
  obtain ⟨session, error, thrown, ran, one, throws⟩ := @onePrepared_throws .readOnly (by decide)
  have clean := (executeInBlock_rollsBack_iff ran throws).mpr ⟨rfl, by simp [one]⟩
  obtain ⟨after, rollsBack⟩ := clean
  exact ⟨session, error, after, ran, rollsBack⟩

theorem busy_not_rolledBack :
    ∃ session error thrown, Runs.run Session.step (Session.opened "a.openss" ()) onePrepared =
        some session ∧ executeStatement id StepFailure.busy.reply session.handle =
        .thrown error thrown ∧ ¬ ∃ after, RollsBack session id .busy error after := by
  obtain ⟨session, error, thrown, ran, -, throws⟩ := @onePrepared_throws .busy (by decide)
  refine ⟨session, error, thrown, ran, throws, fun clean => ?_⟩
  have readOnly := ((executeInBlock_rollsBack_iff ran throws).mp clean).1
  cases readOnly

end OpenSpeedShop.Database
