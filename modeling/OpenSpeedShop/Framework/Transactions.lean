import OpenSpeedShop.Framework.Database

/-!
Preconditions of the transaction macros and of the statement loops inside them.
-/

namespace OpenSpeedShop

open Procedure (wlp)

namespace Database

open Procedure

variable {Contents Value : Type}

def AtLevel (outer : List (Option Nat)) (handle : Handle Contents) : Prop :=
  ∃ pending : List Nat, handle.dmTransaction = pending.map some ++ none :: outer

/-- Preparing and stepping a query changes nothing that the transaction reads,
and nothing that its end depends on. -/
structure Unchanged (before after : Handle Contents) : Prop where
  committed : after.dmDatabase.committed = before.dmDatabase.committed
  working : after.dmDatabase.working = before.dmDatabase.working
  issued : after.dmDatabase.issued = before.dmDatabase.issued
  committable : after.dmIsCommittable = before.dmIsCommittable

theorem Unchanged.refl (handle : Handle Contents) : Unchanged handle handle :=
  ⟨rfl, rfl, rfl, rfl⟩

theorem Unchanged.trans {first second third : Handle Contents} (one : Unchanged first second)
    (two : Unchanged second third) : Unchanged first third :=
  ⟨two.committed.trans one.committed, two.working.trans one.working,
    two.issued.trans one.issued, two.committable.trans one.committable⟩

variable {handle : Handle Contents} {outer : List (Option Nat)}

theorem AtLevel.nonempty (level : AtLevel outer handle) : handle.dmTransaction ≠ [] := by
  obtain ⟨pending, stack⟩ := level
  simp [stack]

theorem AtLevel.of_eq {before after : Handle Contents}
    (level : AtLevel outer before) (same : after.dmTransaction = before.dmTransaction) :
    AtLevel outer after := by
  obtain ⟨pending, stack⟩ := level
  exact ⟨pending, same.trans stack⟩

theorem AtLevel.push {before after : Handle Contents} {stmt : Nat} (level : AtLevel outer before)
    (pushed : after.dmTransaction = some stmt :: before.dmTransaction) : AtLevel outer after := by
  obtain ⟨pending, stack⟩ := level
  exact ⟨stmt :: pending, by rw [pushed, stack]; rfl⟩

variable {raised : DatabaseException → Handle Contents → Prop}
    {post : Unit → Handle Contents → Prop}

theorem wlp_prepareStatement {statement : String} {reply : PrepareReply}
    (prepared : ∀ stmt next, next.dmTransaction = some stmt :: handle.dmTransaction →
      Unchanged handle next → post () next) (failed : ∀ error, raised error handle) :
    (prepareStatement statement reply).wlp post raised handle := by
  unfold wlp prepareStatement
  split <;> rename_i ran
  · split at ran
    · contradiction
    · split at ran
      · cases ran
        exact prepared _ _ rfl ⟨rfl, rfl, rfl, rfl⟩
      · cases reply <;> cases ran
        exact prepared _ _ rfl ⟨rfl, rfl, rfl, rfl⟩
  · split at ran
    · contradiction
    · split at ran
      · contradiction
      · cases reply <;> cases ran
        exact failed _
  · trivial

variable {effect : Contents → Contents}

theorem wlp_executeStatement_failure (failure : StepFailure) {post : Bool → Handle Contents → Prop}
    (failed : ∀ error, raised error handle) :
    (executeStatement effect failure.reply).wlp post raised handle := by
  unfold wlp executeStatement
  cases top : handle.dmTransaction with
  | nil => trivial
  | cons entry below =>
    cases entry with
    | none => trivial
    | some stmt => cases failure <;> first | exact failed _ | trivial

variable {below : List (Option Nat)}

theorem wlp_executeStatement_row {stmt : Nat} (top : handle.dmTransaction = some stmt :: below)
    {post : Bool → Handle Contents → Prop} (stepped : post true handle) :
    (executeStatement id .row).wlp post raised handle := by
  unfold wlp executeStatement
  simp only [top]
  rw [← top]
  exact stepped

theorem wlp_executeStatement_done {stmt : Nat} (top : handle.dmTransaction = some stmt :: below)
    {reset : ResetReply} {post : Bool → Handle Contents → Prop} (stepped : post false { handle with
      dmDatabase := { handle.dmDatabase with working := effect handle.dmDatabase.working }
      dmTransaction := below }) :
    (executeStatement effect (.done reset)).wlp post raised handle := by
  unfold wlp executeStatement
  rw [top]
  cases reset <;> first | exact stepped | trivial

theorem issue_committed (command : TransactionCommand)
    (same : handle.dmDatabase.working = handle.dmDatabase.committed) :
    (issue command handle).dmDatabase.working = handle.dmDatabase.working ∧
      (issue command handle).dmDatabase.committed = handle.dmDatabase.committed := by
  cases command <;> simp [issue, same]

def begunOutermost (command : TransactionCommand) (handle : Handle Contents) : Handle Contents :=
  { issue command handle with dmIsCommittable := true, dmTransaction := [none] }

def begunNested (handle : Handle Contents) : Handle Contents :=
  { handle with dmTransaction := none :: handle.dmTransaction }

theorem wlp_beginTransaction_outermost {willModify : Bool}
    {reply : BeginReply} (outermost : handle.dmTransaction = [])
    (begun : ∀ command, command = .beginExclusive ∨ command = .beginDeferred →
      post () (begunOutermost command handle)) :
    (beginTransaction willModify reply).wlp post raised handle := by
  have started (command : TransactionCommand)
      (either : command = .beginExclusive ∨ command = .beginDeferred) :
      post () { issue command handle with
        dmIsCommittable := true, dmTransaction := none :: (issue command handle).dmTransaction } := by
    rw [issue_dmTransaction, outermost]
    exact begun command either
  unfold wlp beginTransaction
  simp only [outermost, List.isEmpty_nil, if_true]
  cases reply with
  | ok =>
    cases willModify
    · exact started _ (Or.inr rfl)
    · exact started _ (Or.inl rfl)
  | readOnlyThenOk =>
    cases willModify
    · trivial
    · exact started _ (Or.inr rfl)
  | other => trivial

theorem wlp_beginTransaction_nested {willModify : Bool}
    {reply : BeginReply} (nested : handle.dmTransaction ≠ []) (begun : post () (begunNested handle)) :
    (beginTransaction willModify reply).wlp post raised handle := by
  unfold wlp beginTransaction
  simp only [List.isEmpty_iff, nested, if_false]
  exact begun

def closed (outer : List (Option Nat)) (handle : Handle Contents) : Handle Contents :=
  { handle with dmTransaction := outer }

variable {reply : EndReply}

theorem wlp_commitTransaction (level : AtLevel outer handle)
    (inner : outer ≠ [] → post () (closed outer handle)) (outermost : outer = [] →
      post () (issue (if handle.dmIsCommittable then .commit else .rollback) (closed outer handle))) :
    (commitTransaction reply).wlp post raised handle := by
  obtain ⟨pending, stack⟩ := level
  unfold wlp commitTransaction
  cases popped : popTransaction reply handle.dmTransaction with
  | none => trivial
  | some below =>
    rw [stack] at popped
    obtain rfl := popTransaction_level popped
    by_cases last : below = []
    · simp only [last, List.isEmpty_nil, if_true]
      cases reply.executed
      · trivial
      · exact last ▸ outermost last
    · simp only [List.isEmpty_iff, last, if_false]
      exact inner last

theorem wlp_rollbackTransaction (level : AtLevel outer handle)
    (inner : outer ≠ [] → post () { closed outer handle with dmIsCommittable := false })
    (outermost : outer = [] → post () (issue .rollback (closed outer handle))) :
    (rollbackTransaction reply).wlp post raised handle := by
  obtain ⟨pending, stack⟩ := level
  unfold wlp rollbackTransaction
  cases popped : popTransaction reply handle.dmTransaction with
  | none => trivial
  | some below =>
    rw [stack] at popped
    obtain rfl := popTransaction_level popped
    by_cases last : below = []
    · simp only [last, List.isEmpty_nil, if_true]
      cases reply.executed
      · trivial
      · exact last ▸ outermost last
    · simp only [List.isEmpty_iff, last, if_false]
      exact inner last

theorem popTransaction_atLevel {stack below : List (Option Nat)}
    (popped : popTransaction reply stack = some below) :
    ∃ pending : List Nat, stack = pending.map some ++ none :: below := by
  induction stack with
  | nil => simp [popTransaction] at popped
  | cons top rest ih =>
    cases top with
    | none =>
      simp only [popTransaction, Option.some.injEq] at popped
      exact ⟨[], by rw [popped]; rfl⟩
    | some stmt =>
      have deeper : popTransaction reply rest = some below := by
        simp only [popTransaction] at popped
        split at popped
        · exact popped
        · exact popped
        · contradiction
      obtain ⟨pending, split⟩ := ih deeper
      exact ⟨stmt :: pending, by rw [split]; rfl⟩

theorem wlp_of_atLevel : ((∀ outer, AtLevel outer handle → (commitTransaction reply).wlp post raised handle) →
      (commitTransaction reply).wlp post raised handle) ∧
    ((∀ outer, AtLevel outer handle → (rollbackTransaction reply).wlp post raised handle) →
      (rollbackTransaction reply).wlp post raised handle) := by
  cases popped : popTransaction reply handle.dmTransaction with
  | none =>
    constructor
    · intro _
      simp [wlp, commitTransaction, popped]
    · intro _
      simp [wlp, rollbackTransaction, popped]
  | some below =>
    have level : AtLevel below handle := popTransaction_atLevel popped
    exact ⟨fun safe => safe below level, fun safe => safe below level⟩

end Database

namespace Access

open Procedure Database

variable {State Contents Value Row : Type}

@[simp] theorem read_write_simp (database : Access State Contents) (state : State)
    (handle : Handle Contents) : database.read (database.write state handle) = handle :=
  database.read_write state handle

@[simp] theorem write_write_simp (database : Access State Contents) (state : State)
    (first second : Handle Contents) :
    database.write (database.write state first) second = database.write state second :=
  database.write_write state first second

@[simp] theorem write_read_simp (database : Access State Contents) (state : State) :
    database.write state (database.read state) = state :=
  database.write_read state

@[simp] theorem wlp_call (database : Access State Contents) (act : Act Contents Value)
    (post : Value → State → Prop) (raised : DatabaseException → State → Prop) (state : State) :
    (database.call act).wlp post raised state ↔
      act.wlp (fun value handle => post value (database.write state handle))
        (fun error handle => raised error (database.write state handle)) (database.read state) :=
  wlp_within _ _ _ _ _ _

/-! What does not depend on the handle is kept by every call on the database. -/

section

variable {database : Access State Contents} {state : State} {post raised : State → Prop}

theorem wlp_call_frame {act : Act Contents Value} (kept : ∀ handle, post (database.write state handle))
    (keptRaised : ∀ handle, raised (database.write state handle)) :
    (database.call act).wlp (fun _ => post) (fun _ => raised) state := by
  rw [wlp_call]
  apply wlp_intro
  · exact fun _ handle _ => kept handle
  · exact fun _ handle _ => keptRaised handle

theorem wlp_transaction_frame {willModify : Bool} {reply : MacroReply}
    {body : Procedure State DatabaseException Value}
    (kept : ∀ after handle, post after → post (database.write after handle))
    (keptRaised : ∀ after handle, raised after → raised (database.write after handle))
    (weaken : ∀ after, post after → raised after) (notBegun : ∀ handle, raised (database.write state handle))
    (ran : ∀ handle, body.wlp (fun _ => post) (fun _ => raised) (database.write state handle)) :
    (database.transaction willModify reply body).wlp (fun _ => post) (fun _ => raised) state := by
  have rolledBack : ∀ after, raised after →
      (database.call (rollbackTransaction reply.rolledBack)).wlp (fun _ => raised) (fun _ => raised) after :=
    fun after holds => wlp_call_frame (keptRaised after · holds) (keptRaised after · holds)
  unfold transaction
  rw [wlp_onException, wlp_bind]
  apply wlp_call_frame
  · intro handle
    rw [wlp_bind]
    apply wlp_mono (ran handle)
    · intro _ after holds
      rw [wlp_bind]
      apply wlp_call_frame
      · exact fun handle => kept after handle holds
      · exact fun handle => rolledBack _ (keptRaised after handle (weaken after holds))
    · intro error after holds
      exact rolledBack after holds
  · exact fun handle => rolledBack _ (notBegun handle)

end

variable {raised : DatabaseException → State → Prop} {post : Value → State → Prop}
    {outer : List (Option Nat)} {state : State}

variable {body : Procedure State DatabaseException Value}

theorem wlp_transaction_nested (database : Access State Contents) {willModify : Bool} {reply : MacroReply}
    (stack : (database.read state).dmTransaction = outer) (nested : outer ≠ []) (ran : body.wlp
      (fun value after => AtLevel outer (database.read after) ∧
        post value (database.write after (closed outer (database.read after))))
      (fun error after => AtLevel outer (database.read after) ∧ raised error (database.write after
          { closed outer (database.read after) with dmIsCommittable := false }))
      (database.write state (begunNested (database.read state)))) :
    (database.transaction willModify reply body).wlp post raised state := by
  unfold transaction
  simp only [wlp_onException, wlp_bind, wlp_call]
  apply wlp_beginTransaction_nested (stack ▸ nested)
  apply wlp_mono ran
  · rintro value after ⟨level, holds⟩
    simp only [wlp_bind, wlp_call, wlp_pure]
    exact wlp_commitTransaction level (fun _ => holds) (fun last => absurd last nested)
  · rintro error after ⟨level, holds⟩
    simp only [wlp_call]
    exact wlp_rollbackTransaction level (fun _ => holds) (fun last => absurd last nested)

theorem wlp_transaction_outermost (database : Access State Contents)
    {willModify : Bool} {reply : MacroReply} (idle : (database.read state).dmTransaction = [])
    (ran : ∀ command, command = .beginExclusive ∨ command = .beginDeferred → body.wlp
      (fun value after => AtLevel [] (database.read after) ∧ post value (database.write after
          (issue (if (database.read after).dmIsCommittable then .commit else .rollback)
            (closed [] (database.read after))))) (fun error after => AtLevel [] (database.read after) ∧
        raised error (database.write after (issue .rollback (closed [] (database.read after)))))
      (database.write state (begunOutermost command (database.read state)))) :
    (database.transaction willModify reply body).wlp post raised state := by
  unfold transaction
  simp only [wlp_onException, wlp_bind, wlp_call]
  apply wlp_beginTransaction_outermost idle
  intro command either
  apply wlp_mono (ran command either)
  · rintro value after ⟨level, holds⟩
    simp only [wlp_bind, wlp_call, wlp_pure]
    exact wlp_commitTransaction level (fun outer => absurd rfl outer) (fun _ => holds)
  · rintro error after ⟨level, holds⟩
    simp only [wlp_call]
    exact wlp_rollbackTransaction level (fun outer => absurd rfl outer) (fun _ => holds)

variable {reply : QueryReply}

variable {body : Value → Row → Procedure State DatabaseException Value}

theorem wlp_executeRows (database : Access State Contents)
    {start : Handle Contents} {stmt : Nat} {below : List (Option Nat)}
    (Inv : List Row → Value → State → Prop) (top : start.dmTransaction = some stmt :: below)
    (frame : ∀ delivered value state handle,
      Inv delivered value state → Inv delivered value (database.write state handle)) :
    ∀ (rows delivered : List Row), (∀ front row back value state, rows = front ++ row :: back →
      Inv (delivered ++ front) value state → (body value row).wlp
        (fun value' state' => Inv (delivered ++ front ++ [row]) value' state' ∧
          database.read state' = database.read state) (fun _ _ => False) state) →
    (∀ value state, Inv (delivered ++ rows) value state →
      database.read state = closed below start → post value state) →
    (∀ front back value error state, rows = front ++ back → Inv (delivered ++ front) value state →
      (reply.failureAt (delivered ++ front).length).isSome → database.read state = start →
      raised error state) →
    ∀ (value : Value) (state : State), Inv delivered value state → database.read state = start →
      (database.executeRows reply body rows delivered.length value).wlp post raised state := by
  intro rows
  induction rows with
  | nil =>
    intro delivered step finish fail value state holds here
    unfold executeRows
    cases failing : reply.failureAt delivered.length with
    | some failure =>
      simp only [wlp_bind, wlp_call, wlp_pure]
      apply wlp_executeStatement_failure
      intro error
      exact fail [] [] value error _ rfl (by simpa using holds) (by simp [failing]) (by simpa using here)
    | none =>
      simp only [wlp_bind, wlp_call, wlp_pure]
      apply wlp_executeStatement_done (here ▸ top)
      apply finish value _ (by simpa using frame _ _ _ _ holds)
      rw [read_write_simp, here]
      rfl
  | cons row rest ih =>
    intro delivered step finish fail value state holds here
    unfold executeRows
    cases failing : reply.failureAt delivered.length with
    | some failure =>
      simp only [wlp_bind, wlp_call, wlp_pure]
      apply wlp_executeStatement_failure
      intro error
      exact fail [] (row :: rest) value error _ rfl (by simpa using holds)
        (by simp [failing]) (by simpa using here)
    | none =>
      simp only [wlp_bind, wlp_call]
      apply wlp_executeStatement_row (here ▸ top)
      have first := step [] row rest value (database.write state (database.read state)) rfl
        (by simpa using holds)
      apply wlp_mono first
      · rintro value' state' ⟨holds', same⟩
        rw [read_write_simp, here] at same
        have longer : delivered.length + 1 = (delivered ++ [row]).length := by simp
        rw [longer]
        apply ih (delivered ++ [row])
        · intro front next back value'' state'' split holds''
          have restated := step (row :: front) next back value'' state'' (by rw [split, List.cons_append])
          simp only [List.append_assoc, List.singleton_append] at holds'' restated ⊢
          exact restated holds''
        · intro value'' state'' holds''
          exact finish value'' state'' (by simpa using holds'')
        · intro front back value'' error state'' split holds'' failing''
          exact fail (row :: front) back value'' error state'' (by rw [split, List.cons_append])
            (by simpa using holds'') (by simpa using failing'')
        · simpa using holds'
        · exact same
      · intro error after impossible
        exact impossible.elim

variable {statement : String}

theorem wlp_query (database : Access State Contents) {select : Contents → List Row} {value : Value}
    (level : AtLevel outer (database.read state))
    (Inv : List Row → Value → State → Prop) (initial : Inv [] value state)
    (frame : ∀ delivered value state handle,
      Inv delivered value state → Inv delivered value (database.write state handle))
    (step : ∀ front row back value after,
      select (database.read state).dmDatabase.working = front ++ row :: back →
      Inv front value after → (body value row).wlp (fun value' after' => Inv (front ++ [row]) value' after' ∧
          database.read after' = database.read after) (fun _ _ => False) after)
    (finish : ∀ value after, Inv (select (database.read state).dmDatabase.working) value after →
      AtLevel outer (database.read after) → Unchanged (database.read state) (database.read after) →
      post value after) (fail : ∀ front back value error after,
      select (database.read state).dmDatabase.working = front ++ back → Inv front value after →
      front = [] ∨ (reply.failureAt front.length).isSome → AtLevel outer (database.read after) →
      Unchanged (database.read state) (database.read after) → raised error after) :
    (database.query statement select reply value body).wlp post raised state := by
  unfold query
  simp only [wlp_bind, wlp_call]
  apply wlp_prepareStatement
  · intro stmt next pushed same
    simp only [wlp_get, read_write_simp, same.working]
    apply wlp_executeRows database Inv pushed frame _ []
    · simpa using step
    · intro value' after holds closedHere
      rw [List.nil_append] at holds
      apply finish value' after holds
      · exact level.of_eq (by rw [closedHere]; rfl)
      · rw [closedHere]
        exact ⟨same.committed, same.working, same.issued, same.committable⟩
    · intro front back value' error after split holds failing here
      rw [List.nil_append] at holds failing
      apply fail front back value' error after split holds (Or.inr failing)
      · exact here ▸ level.push pushed
      · exact here ▸ same
    · exact frame _ _ _ _ initial
    · exact read_write_simp _ _ _
  · intro error
    apply fail [] _ value error _ rfl (frame _ _ _ _ initial) (Or.inl rfl)
    · simpa using level
    · rw [read_write_simp]
      exact Unchanged.refl _

theorem wlp_queryLast (database : Access State Contents)
    {select : Contents → List Value} {value : Value} (level : AtLevel outer (database.read state))
    (finish : ∀ handle, AtLevel outer handle → Unchanged (database.read state) handle →
      post ((select (database.read state).dmDatabase.working).getLastD value) (database.write state handle))
    (fail : ∀ error handle, AtLevel outer handle → Unchanged (database.read state) handle →
      raised error (database.write state handle)) :
    (database.queryLast statement select reply value).wlp post raised state := by
  apply wlp_query database level (fun delivered found after =>
    found = delivered.getLastD value ∧ ∃ handle, after = database.write state handle)
  · exact ⟨rfl, database.read state, by simp⟩
  · rintro delivered found after handle ⟨last, old, rfl⟩
    exact ⟨last, handle, by simp⟩
  · rintro front row back found after _ ⟨last, old, rfl⟩
    simp only [wlp_pure]
    exact ⟨⟨by simp, old, rfl⟩, trivial⟩
  · rintro found after ⟨rfl, handle, rfl⟩ level' same
    rw [read_write_simp] at level' same
    exact finish handle level' same
  · rintro front back found error after _ ⟨_, handle, rfl⟩ _ level' same
    rw [read_write_simp] at level' same
    exact fail error handle level' same

theorem wlp_command (database : Access State Contents) {effect : Contents → Contents}
    (level : AtLevel outer (database.read state)) {post : Unit → State → Prop}
    (finish : ∀ handle, AtLevel outer handle →
      handle.dmDatabase.working = effect (database.read state).dmDatabase.working →
      handle.dmDatabase.committed = (database.read state).dmDatabase.committed →
      handle.dmDatabase.issued = (database.read state).dmDatabase.issued →
      handle.dmIsCommittable = (database.read state).dmIsCommittable → post () (database.write state handle))
    (fail : ∀ error handle, AtLevel outer handle → Unchanged (database.read state) handle →
      raised error (database.write state handle)) :
    (database.command statement effect reply).wlp post raised state := by
  unfold command
  simp only [wlp_bind, wlp_call]
  apply wlp_prepareStatement
  · intro stmt next pushed same
    cases reply.failureAt 0 with
    | some failure =>
      simp only [wlp_bind, wlp_call, wlp_pure, read_write_simp, write_write_simp]
      apply wlp_executeStatement_failure
      intro error
      exact fail error next (level.push pushed) same
    | none =>
      simp only [wlp_bind, wlp_call, wlp_pure, read_write_simp, write_write_simp]
      apply wlp_executeStatement_done pushed
      apply finish
      · exact level
      · exact congrArg effect same.working
      · exact same.committed
      · exact same.issued
      · exact same.committable
  · intro error
    exact fail error _ level (Unchanged.refl _)

end Access

end OpenSpeedShop
