import OpenSpeedShop.Framework.DatabaseCore

/-!
Nested transactions: every level gives back the stack it found, no statement is on the stack
twice, and the outermost level commits exactly when no level inside it was rolled back.
-/

namespace OpenSpeedShop.Database

open Call (step isRollback)

variable {Contents : Type}

/-- Statements on the stack or in the cache are allocated, and the stack holds
none of them twice. -/
structure StackOk (handle : Handle Contents) : Prop where
  cached : ∀ entry ∈ handle.dmCache, entry.2 < handle.dmDatabase.allocated
  stacked : ∀ stmt, some stmt ∈ handle.dmTransaction → stmt < handle.dmDatabase.allocated
  once : ∀ stmt, handle.dmTransaction.count (some stmt) ≤ 1

theorem stackOk_opened (name : String) (contents : Contents) : StackOk (opened name contents) := by
  constructor <;> simp [opened]

@[simp] theorem issue_dmTransaction (command : TransactionCommand) (handle : Handle Contents) :
    (issue command handle).dmTransaction = handle.dmTransaction := rfl

@[simp] theorem issue_dmCache (command : TransactionCommand) (handle : Handle Contents) :
    (issue command handle).dmCache = handle.dmCache := rfl

variable {handle : Handle Contents}

theorem findUnused_spec {statement : String} {stmt : Nat} (found : findUnused handle statement = some stmt) :
    (statement, stmt) ∈ handle.dmCache ∧ some stmt ∉ handle.dmTransaction := by
  have member := List.mem_of_find?_eq_some found
  have unused := List.find?_some found
  simp only [List.mem_map, List.mem_filter, beq_iff_eq] at member
  obtain ⟨entry, ⟨cached, text⟩, number⟩ := member
  constructor
  · rw [← text, ← number]
    exact cached
  · simpa using unused

variable {reply : EndReply}

theorem popTransaction_suffix {stack below : List (Option Nat)}
    (popped : popTransaction reply stack = some below) : below <:+ stack := by
  induction stack with
  | nil => simp [popTransaction] at popped
  | cons top rest ih =>
    cases top with
    | none =>
      simp only [popTransaction, Option.some.injEq] at popped
      rw [← popped]
      exact List.suffix_cons none rest
    | some stmt =>
      simp only [popTransaction] at popped
      split at popped
      · exact (ih popped).trans (List.suffix_cons _ rest)
      · exact (ih popped).trans (List.suffix_cons _ rest)
      · contradiction

theorem popTransaction_level {pending : List Nat} {outer below : List (Option Nat)}
    (popped : popTransaction reply (pending.map some ++ none :: outer) = some below) : below = outer := by
  induction pending with
  | nil => simpa [popTransaction] using popped.symm
  | cons stmt rest ih =>
    simp only [List.map_cons, List.cons_append, popTransaction] at popped
    split at popped
    · exact ih popped
    · exact ih popped
    · contradiction

/-! What each call can do to the handle when it does not abort the program. -/

variable {handle next : Handle Contents}

theorem begin_cases {willModify : Bool} {reply : BeginReply}
    (stepped : step handle (.beginTransaction willModify reply) = some next) :
    next.dmTransaction = none :: handle.dmTransaction ∧ next.dmCache = handle.dmCache ∧
      next.dmDatabase.allocated = handle.dmDatabase.allocated ∧
      next.dmDatabase.committed = handle.dmDatabase.committed ∧
      ((handle.dmTransaction = [] ∧ next.dmIsCommittable = true ∧
          (next.dmDatabase.issued = handle.dmDatabase.issued ++ [.beginExclusive] ∨
            next.dmDatabase.issued = handle.dmDatabase.issued ++ [.beginDeferred])) ∨
        (handle.dmTransaction ≠ [] ∧ next.dmIsCommittable = handle.dmIsCommittable ∧
          next.dmDatabase = handle.dmDatabase)) := by
  simp only [step, beginTransaction] at stepped
  by_cases outermost : handle.dmTransaction = []
  · cases reply <;> cases willModify <;>
      simp [outermost, Outcome.state?, issue] at stepped <;> subst next <;> simp [outermost]
  · simp [outermost, Outcome.state?] at stepped
    subst next
    simp [outermost]

theorem prepare_cases {statement : String} {reply : PrepareReply}
    (stepped : step handle (.prepareStatement statement reply) = some next) :
    next.dmIsCommittable = handle.dmIsCommittable ∧ next.dmDatabase.committed = handle.dmDatabase.committed ∧
      next.dmDatabase.issued = handle.dmDatabase.issued ∧ (next = handle ∨
        (∃ stmt, (statement, stmt) ∈ handle.dmCache ∧ some stmt ∉ handle.dmTransaction ∧
          next = { handle with dmTransaction := some stmt :: handle.dmTransaction }) ∨
        (next.dmTransaction = some handle.dmDatabase.allocated :: handle.dmTransaction ∧
          next.dmCache = handle.dmCache ++ [(statement, handle.dmDatabase.allocated)] ∧
          next.dmDatabase.allocated = handle.dmDatabase.allocated + 1)) := by
  simp only [step, prepareStatement] at stepped
  split at stepped
  · simp [Outcome.state?] at stepped
  · cases found : findUnused handle statement with
    | some stmt =>
      simp only [found, Outcome.state?, Option.some.injEq] at stepped
      obtain ⟨cached, unused⟩ := findUnused_spec found
      subst next
      exact ⟨rfl, rfl, rfl, Or.inr (Or.inl ⟨stmt, cached, unused, rfl⟩)⟩
    | none =>
      cases reply <;> simp only [found, Outcome.state?, Option.some.injEq, reduceCtorEq] at stepped
      · subst next
        exact ⟨rfl, rfl, rfl, Or.inr (Or.inr ⟨rfl, rfl, rfl⟩)⟩
      · subst next
        exact ⟨rfl, rfl, rfl, Or.inl rfl⟩

theorem execute_cases {effect : Contents → Contents}
    {reply : StepReply} (stepped : step handle (.executeStatement effect reply) = some next) :
    next.dmIsCommittable = handle.dmIsCommittable ∧ next.dmCache = handle.dmCache ∧
      next.dmDatabase.allocated = handle.dmDatabase.allocated ∧
      next.dmDatabase.committed = handle.dmDatabase.committed ∧
      next.dmDatabase.issued = handle.dmDatabase.issued ∧
      ∃ stmt below, handle.dmTransaction = some stmt :: below ∧
        (next.dmTransaction = handle.dmTransaction ∨ next.dmTransaction = below) := by
  simp only [step, executeStatement] at stepped
  split at stepped
  · rename_i stmt below stack
    cases reply with
    | done reset =>
      cases reset <;> simp only [Outcome.state?, Option.some.injEq, reduceCtorEq] at stepped
      subst next
      exact ⟨rfl, rfl, rfl, rfl, rfl, stmt, below, stack, Or.inr rfl⟩
    | other => simp [Outcome.state?] at stepped
    | row | readOnly | error | busy =>
      simp only [Outcome.state?, Option.some.injEq] at stepped
      subst next
      exact ⟨rfl, rfl, rfl, rfl, rfl, stmt, below, stack, Or.inl rfl⟩
  · simp [Outcome.state?] at stepped

theorem commit_cases (stepped : step handle (.commitTransaction reply) = some next) :
    popTransaction reply handle.dmTransaction = some next.dmTransaction ∧ next.dmCache = handle.dmCache ∧
      next.dmDatabase.allocated = handle.dmDatabase.allocated ∧ ((next.dmTransaction = [] ∧
          next.dmDatabase.issued = handle.dmDatabase.issued ++
            [if handle.dmIsCommittable then .commit else .rollback] ∧
          next.dmDatabase.committed = if handle.dmIsCommittable then
            handle.dmDatabase.working else handle.dmDatabase.committed) ∨
        (next.dmTransaction ≠ [] ∧ next.dmIsCommittable = handle.dmIsCommittable ∧
          next.dmDatabase = handle.dmDatabase)) := by
  simp only [step, commitTransaction] at stepped
  cases popped : popTransaction reply handle.dmTransaction with
  | none => simp [popped, Outcome.state?] at stepped
  | some below =>
    simp only [popped] at stepped
    by_cases outermost : below = []
    · subst below
      cases committable : handle.dmIsCommittable <;> cases executed : reply.executed <;>
        simp [committable, executed, Outcome.state?] at stepped <;> subst next <;>
        simp [issue]
    · simp only [List.isEmpty_iff, outermost, if_false, Outcome.state?, Option.some.injEq] at stepped
      subst next
      exact ⟨rfl, rfl, rfl, Or.inr ⟨outermost, rfl, rfl⟩⟩

theorem rollback_cases (stepped : step handle (.rollbackTransaction reply) = some next) :
    popTransaction reply handle.dmTransaction = some next.dmTransaction ∧ next.dmCache = handle.dmCache ∧
      next.dmDatabase.allocated = handle.dmDatabase.allocated ∧ ((next.dmTransaction = [] ∧
          next.dmDatabase.issued = handle.dmDatabase.issued ++ [.rollback] ∧
          next.dmDatabase.committed = handle.dmDatabase.committed) ∨
        (next.dmTransaction ≠ [] ∧ next.dmIsCommittable = false ∧ next.dmDatabase = handle.dmDatabase)) := by
  simp only [step, rollbackTransaction] at stepped
  cases popped : popTransaction reply handle.dmTransaction with
  | none => simp [popped, Outcome.state?] at stepped
  | some below =>
    simp only [popped] at stepped
    by_cases outermost : below = []
    · subst below
      cases executed : reply.executed <;> simp [executed, Outcome.state?] at stepped
      subst next
      simp [issue]
    · simp only [List.isEmpty_iff, outermost, if_false, Outcome.state?, Option.some.injEq] at stepped
      subst next
      exact ⟨rfl, rfl, rfl, Or.inr ⟨outermost, rfl, rfl⟩⟩

theorem StackOk.of_suffix (ok : StackOk handle)
    (suffix : next.dmTransaction <:+ handle.dmTransaction) (cache : next.dmCache = handle.dmCache)
    (allocated : next.dmDatabase.allocated = handle.dmDatabase.allocated) : StackOk next := by
  constructor
  · rw [cache, allocated]
    exact ok.cached
  · intro stmt member
    rw [allocated]
    exact ok.stacked stmt (suffix.mem member)
  · intro stmt
    exact Nat.le_trans (suffix.sublist.count_le (some stmt)) (ok.once stmt)

theorem StackOk.push {stmt : Nat} (ok : StackOk handle) (fresh : some stmt ∉ handle.dmTransaction)
    (stack : next.dmTransaction = some stmt :: handle.dmTransaction)
    (cached : ∀ entry ∈ next.dmCache, entry.2 < next.dmDatabase.allocated)
    (inside : stmt < next.dmDatabase.allocated)
    (grows : handle.dmDatabase.allocated ≤ next.dmDatabase.allocated) : StackOk next := by
  constructor
  · exact cached
  · intro other member
    rw [stack, List.mem_cons, Option.some.injEq] at member
    rcases member with rfl | below
    · exact inside
    · exact Nat.lt_of_lt_of_le (ok.stacked other below) grows
  · intro other
    rw [stack, List.count_cons]
    by_cases same : other = stmt
    · subst other
      simp [List.count_eq_zero_of_not_mem fresh]
    · have different : (some stmt == some other) = false := by simpa using Ne.symm same
      simpa [different] using ok.once other

theorem StackOk.step (ok : StackOk handle)
    {call : Call Contents} (stepped : call.step handle = some next) : StackOk next := by
  cases call with
  | beginTransaction willModify reply =>
    obtain ⟨stack, cache, allocated, _⟩ := begin_cases stepped
    constructor
    · rw [cache, allocated]
      exact ok.cached
    · intro stmt member
      rw [stack] at member
      rw [allocated]
      exact ok.stacked stmt (by simpa using member)
    · intro stmt
      rw [stack]
      simpa using ok.once stmt
  | prepareStatement statement reply =>
    obtain ⟨_, _, _, same | ⟨stmt, cached, unused, same⟩ | ⟨stack, cache, allocated⟩⟩ :=
      prepare_cases stepped
    · rwa [same]
    · subst next
      exact ok.push unused rfl ok.cached (ok.cached _ cached) (Nat.le_refl _)
    · have fresh : some handle.dmDatabase.allocated ∉ handle.dmTransaction :=
        fun member => absurd (ok.stacked _ member) (Nat.lt_irrefl _)
      apply ok.push fresh stack _ (by omega) (by omega)
      intro entry member
      rw [cache, List.mem_append, List.mem_singleton] at member
      rcases member with old | rfl
      · have bound := ok.cached entry old
        omega
      · exact Nat.lt_of_lt_of_eq (Nat.lt_succ_self _) allocated.symm
  | executeStatement effect reply =>
    obtain ⟨_, cache, allocated, _, _, stmt, below, stack, kept | popped⟩ :=
      execute_cases stepped
    · exact ok.of_suffix ⟨[], by rw [List.nil_append, kept]⟩ cache allocated
    · exact ok.of_suffix (by rw [popped, stack]; exact List.suffix_cons _ _) cache allocated
  | commitTransaction reply =>
    obtain ⟨popped, cache, allocated, _⟩ := commit_cases stepped
    exact ok.of_suffix (popTransaction_suffix popped) cache allocated
  | rollbackTransaction reply =>
    obtain ⟨popped, cache, allocated, _⟩ := rollback_cases stepped
    exact ok.of_suffix (popTransaction_suffix popped) cache allocated

theorem stackOk_run {name : String} {contents : Contents} {calls : List (Call Contents)}
    (ran : Runs.run step (opened name contents) calls = some handle) : StackOk handle :=
  Runs.run_invariant StackOk (stackOk_opened name contents) (fun _ _ _ ok stepped => ok.step stepped) ran

variable {inner rest : List (Call Contents)}

theorem run_level {handle after : Handle Contents} {first last : Call Contents}
    (ran : Runs.run step handle (first :: inner ++ last :: rest) = some after) :
    ∃ begun atEnd ended, first.step handle = some begun ∧
      Runs.run step begun inner = some atEnd ∧ last.step atEnd = some ended ∧
      Runs.run step ended rest = some after := by
  rw [List.cons_append, Runs.run_cons] at ran
  obtain ⟨begun, start, ran⟩ := Option.bind_eq_some_iff.mp ran
  rw [Runs.run_append] at ran
  obtain ⟨atEnd, middle, ran⟩ := Option.bind_eq_some_iff.mp ran
  rw [Runs.run_cons] at ran
  obtain ⟨ended, stop, ran⟩ := Option.bind_eq_some_iff.mp ran
  exact ⟨begun, atEnd, ended, start, middle, stop, ran⟩

def Call.isEnd : Call Contents → Bool
  | .commitTransaction _ | .rollbackTransaction _ => true
  | _ => false

/-- What the end of a level does: it gives back the enclosing stack, and only an outermost
one issues a command. -/
structure Ends (last : Call Contents) (outer : List (Option Nat)) (atEnd after : Handle Contents) : Prop where
  stack : after.dmTransaction = outer
  inner : outer ≠ [] → after.dmDatabase = atEnd.dmDatabase ∧
    after.dmIsCommittable = (atEnd.dmIsCommittable && !last.isRollback)
  outermost : outer = [] →
    after.dmDatabase.issued = atEnd.dmDatabase.issued ++
      [if last.isRollback || !atEnd.dmIsCommittable then .rollback else .commit] ∧
    after.dmDatabase.committed = if last.isRollback || !atEnd.dmIsCommittable then
      atEnd.dmDatabase.committed else atEnd.dmDatabase.working

theorem ends_of_step {last : Call Contents} {atEnd after : Handle Contents} {pending : List Nat}
    {outer : List (Option Nat)} (isEnd : last.isEnd = true)
    (endStack : atEnd.dmTransaction = pending.map some ++ none :: outer)
    (stop : last.step atEnd = some after) : Ends last outer atEnd after := by
  cases last with
  | commitTransaction reply =>
    obtain ⟨popped, _, _, kept⟩ := commit_cases stop
    rw [endStack] at popped
    have stack := popTransaction_level popped
    refine ⟨stack, fun inside => ?_, fun empty => ?_⟩
    · obtain ⟨bottom, _⟩ | ⟨_, committable, database⟩ := kept
      · exact absurd (stack.symm.trans bottom) inside
      · exact ⟨database, by simp [committable, isRollback]⟩
    · obtain ⟨_, issued, committed⟩ | ⟨nonempty, _⟩ := kept
      · rw [issued, committed]
        cases atEnd.dmIsCommittable <;> simp [isRollback]
      · exact absurd (stack.trans empty) nonempty
  | rollbackTransaction reply =>
    obtain ⟨popped, _, _, kept⟩ := rollback_cases stop
    rw [endStack] at popped
    have stack := popTransaction_level popped
    refine ⟨stack, fun inside => ?_, fun empty => ?_⟩
    · obtain ⟨bottom, _⟩ | ⟨_, committable, database⟩ := kept
      · exact absurd (stack.symm.trans bottom) inside
      · exact ⟨database, by simp [committable, isRollback]⟩
    · obtain ⟨_, issued, committed⟩ | ⟨nonempty, _⟩ := kept
      · rw [issued, committed]
        simp [isRollback]
      · exact absurd (stack.trans empty) nonempty
  | beginTransaction | prepareStatement | executeStatement => simp [Call.isEnd] at isEnd

/-- Inside a level, the calls leave the enclosing stack and the committed contents alone,
and every rollback takes away the right to commit. -/
def StaysInside (inner : List (Call Contents)) : Prop :=
  ∀ {handle after : Handle Contents} (pending : List Nat) {outer : List (Option Nat)},
    handle.dmTransaction = pending.map some ++ none :: outer →
    Runs.run Call.step handle inner = some after →
    (∃ pending' : List Nat, after.dmTransaction = pending'.map some ++ none :: outer) ∧
      after.dmDatabase.issued = handle.dmDatabase.issued ∧
      after.dmDatabase.committed = handle.dmDatabase.committed ∧
      after.dmIsCommittable = (handle.dmIsCommittable && !inner.any Call.isRollback)

theorem StaysInside.level {willModify : Bool}
    {begun : BeginReply} {last : Call Contents} (isEnd : last.isEnd = true)
    (inside : StaysInside inner) (follows : StaysInside rest) :
    StaysInside (.beginTransaction willModify begun :: inner ++ last :: rest) := by
  intro handle after pending outer stack ran
  obtain ⟨started, atEnd, closed, start, middle, stop, later⟩ := run_level ran
  have nonempty : handle.dmTransaction ≠ [] := by simp [stack]
  obtain ⟨startStack, _, _, startCommitted, ⟨empty, _⟩ | ⟨_, startCommittable, startDatabase⟩⟩ :=
    begin_cases start
  · exact absurd empty nonempty
  obtain ⟨⟨pending', endStack⟩, endIssued, endCommitted, endCommittable⟩ :=
    inside [] startStack middle
  have ends := ends_of_step isEnd endStack stop
  obtain ⟨closedDatabase, closedCommittable⟩ := ends.inner nonempty
  obtain ⟨level, issued, committed, committable⟩ :=
    follows pending (ends.stack.trans stack) later
  refine ⟨level, ?_, ?_, ?_⟩
  · rw [issued, closedDatabase, endIssued, startDatabase]
  · rw [committed, closedDatabase, endCommitted, startDatabase]
  · rw [committable, closedCommittable, endCommittable, startCommittable]
    simp [isRollback, Bool.and_assoc]

theorem wellNested_inside {inner : List (Call Contents)} (nested : WellNested inner) : StaysInside inner := by
  induction nested with
  | nil =>
    intro handle after pending outer stack ran
    simp only [Runs.run_nil, Option.some.injEq] at ran
    subst after
    exact ⟨⟨pending, stack⟩, rfl, rfl, by simp⟩
  | prepareStatement statement reply _ ih =>
    intro handle after pending outer stack ran
    rw [Runs.run_cons] at ran
    obtain ⟨next, stepped, rest⟩ := Option.bind_eq_some_iff.mp ran
    obtain ⟨committable, committed, issued, kept⟩ := prepare_cases stepped
    have level : ∃ pending' : List Nat, next.dmTransaction = pending'.map some ++ none :: outer := by
      rcases kept with same | ⟨stmt, _, _, same⟩ | ⟨pushed, _⟩
      · exact ⟨pending, by rw [same, stack]⟩
      · exact ⟨stmt :: pending, by rw [same, stack]; rfl⟩
      · exact ⟨handle.dmDatabase.allocated :: pending, by rw [pushed, stack]; rfl⟩
    obtain ⟨pending', stack'⟩ := level
    obtain ⟨levelEnd, issuedEnd, committedEnd, committableEnd⟩ := ih pending' stack' rest
    refine ⟨levelEnd, issuedEnd.trans issued, committedEnd.trans committed, ?_⟩
    rw [committableEnd, committable]
    rfl
  | executeStatement effect reply _ ih =>
    intro handle after pending outer stack ran
    rw [Runs.run_cons] at ran
    obtain ⟨next, stepped, rest⟩ := Option.bind_eq_some_iff.mp ran
    obtain ⟨committable, _, _, committed, issued, stmt, below, top, kept⟩ :=
      execute_cases stepped
    have level : ∃ pending' : List Nat, next.dmTransaction = pending'.map some ++ none :: outer := by
      cases pending with
      | nil =>
        rw [top] at stack
        simp at stack
      | cons first others =>
        rcases kept with same | popped
        · exact ⟨first :: others, by rw [same, stack]⟩
        · rw [top, List.map_cons, List.cons_append, List.cons.injEq] at stack
          exact ⟨others, by rw [popped, stack.2]⟩
    obtain ⟨pending', stack'⟩ := level
    obtain ⟨levelEnd, issuedEnd, committedEnd, committableEnd⟩ := ih pending' stack' rest
    refine ⟨levelEnd, issuedEnd.trans issued, committedEnd.trans committed, ?_⟩
    rw [committableEnd, committable]
    rfl
  | committed willModify begun ended _ _ ihInner ihRest => exact ihInner.level rfl ihRest
  | rolledBack willModify begun ended _ _ ihInner ihRest => exact ihInner.level rfl ihRest

def closingCommand (inner : List (Call Contents)) (last : Call Contents) : TransactionCommand :=
  if (inner ++ [last]).any Call.isRollback then .rollback else .commit

/-- One level of a well-nested run. Its end pops exactly the statements pushed in it, and only an
outermost level issues a command: `COMMIT` exactly when neither it nor a level inside it is rolled back.
-/
theorem level_correct {name : String} {contents : Contents}
    {earlier inner : List (Call Contents)} {before after : Handle Contents}
    {willModify : Bool} {begun : BeginReply} {last : Call Contents}
    (reached : Runs.run Call.step (opened name contents) earlier = some before)
    (nested : WellNested inner) (isEnd : last.isEnd = true)
    (ran : Runs.run Call.step before (.beginTransaction willModify begun :: inner ++ [last]) = some after) :
    ∃ started atEnd, Call.step before (.beginTransaction willModify begun) = some started ∧
      Runs.run Call.step started inner = some atEnd ∧ last.step atEnd = some after ∧
      (∃ pending : List Nat, atEnd.dmTransaction = pending.map some ++ none :: before.dmTransaction) ∧
      after.dmTransaction = before.dmTransaction ∧
      (∀ front back between stmt, front ++ back = inner →
        Runs.run Call.step started front = some between →
        between.dmTransaction.count (some stmt) ≤ 1) ∧
      (before.dmTransaction ≠ [] → after.dmDatabase.issued = before.dmDatabase.issued ∧
        after.dmDatabase.committed = before.dmDatabase.committed) ∧
      (before.dmTransaction = [] →
        after.dmDatabase.issued = started.dmDatabase.issued ++ [closingCommand inner last] ∧
        after.dmDatabase.committed = if closingCommand inner last = .commit then
          atEnd.dmDatabase.working else before.dmDatabase.committed) := by
  obtain ⟨started, atEnd, closed, start, middle, stop, rest⟩ := run_level ran
  rw [Runs.run_nil, Option.some.injEq] at rest
  subst closed
  obtain ⟨startStack, _, _, startCommitted, startCases⟩ := begin_cases start
  obtain ⟨⟨pending, endStack⟩, endIssued, endCommitted, endCommittable⟩ :=
    wellNested_inside nested [] startStack middle
  have once : ∀ front back between stmt, front ++ back = inner →
      Runs.run Call.step started front = some between →
      between.dmTransaction.count (some stmt) ≤ 1 := by
    intro front back between stmt _ frontRan
    have betweenRan : Runs.run Call.step (opened name contents)
        (earlier ++ (.beginTransaction willModify begun :: front)) = some between := by
      rw [Runs.run_append, reached, Option.bind_some, Runs.run_cons, start, Option.bind_some, frontRan]
    exact (stackOk_run betweenRan).once stmt
  have ends := ends_of_step isEnd endStack stop
  refine ⟨started, atEnd, start, middle, stop, ⟨pending, endStack⟩, ends.stack, once, ?_, ?_⟩
  · intro inside
    obtain ⟨empty, _⟩ | ⟨_, _, database⟩ := startCases
    · exact absurd empty inside
    · rw [(ends.inner inside).1, endIssued, endCommitted, database]
      exact ⟨rfl, rfl⟩
  · intro outermost
    obtain ⟨_, committable, _⟩ | ⟨nonempty, _⟩ := startCases
    · obtain ⟨issued, committed⟩ := ends.outermost outermost
      rw [issued, committed, endCommittable, committable, endIssued, endCommitted, startCommitted]
      simp only [closingCommand, List.any_append, List.any_cons, List.any_nil, Bool.or_false,
        Bool.true_and, Bool.not_not]
      cases last.isRollback <;> cases inner.any Call.isRollback <;> simp
    · exact absurd outermost nonempty

theorem level_correct_nestedRollback :
    let ended : EndReply := ⟨fun _ => .ok, true⟩
    let inner : List (Call Nat) :=
      [.prepareStatement "INSERT" .ok, .executeStatement (· + 1) .row,
        .beginTransaction true .ok, .prepareStatement "INSERT" .ok,
        .executeStatement (· + 1) .row, .rollbackTransaction ended]
    ∃ after, Runs.run Call.step (opened "experiment" 0)
        (.beginTransaction true .ok :: inner ++ [.commitTransaction ended]) = some after ∧
      after.dmTransaction = [] ∧
      after.dmDatabase.issued = [.beginExclusive, .rollback] ∧ after.dmDatabase.committed = 0 := by
  intro ended inner
  have nested : WellNested inner :=
    .prepareStatement _ _ (.executeStatement _ _ (.rolledBack true .ok ended
      (.prepareStatement _ _ (.executeStatement _ _ .nil)) .nil))
  obtain ⟨started, atEnd, start, _, _, _, stack, _, _, outer⟩ :=
    @level_correct Nat "experiment" 0 [] inner _ _ true .ok (.commitTransaction ended) rfl nested
      rfl rfl
  obtain ⟨issued, committed⟩ := outer rfl
  cases start
  exact ⟨_, rfl, stack, issued, committed⟩

end OpenSpeedShop.Database
