import OpenSpeedShop.Library.Runs
import Mathlib.Algebra.GroupWithZero.Nat
import Mathlib.Data.Fintype.Card

/-!
The timers of the threads of a process, which share one signal action. A call sets the
handler of its thread after it has given up the lock.
-/

namespace OpenSpeedShop

structure Timers (Thread Handler Action : Type) where
  numThreads : UInt32
  sigprofAction : Action
  originalSigprofAction : Action
  /-- Nothing before the storage of the thread is created. -/
  timerHandler : Thread → Option (Option Handler)
  /-- A call that has given up the lock, and the handler it is going to set. -/
  returning : Thread → Option (Option Handler)

namespace Timers

/-- The steps of a call of `OpenSS_Timer`. New storage holds NULL when it is
`__thread`, and anything when it comes from `malloc`. -/
inductive Event (Thread Handler : Type)
  | critical (thread : Thread) (interval : UInt64) (handler fresh : Option Handler)
  | finish (thread : Thread)

variable {Thread Handler Action : Type} [DecidableEq Thread]

def new (sigprofAction originalSigprofAction : Action) : Timers Thread Handler Action :=
  ⟨0, sigprofAction, originalSigprofAction, fun _ => none, fun _ => none⟩

def enables (interval : UInt64) (handler : Option Handler) : Bool :=
  decide (interval > 0) && handler.isSome

def critical (signalHandler : Action) (self : Timers Thread Handler Action) (enabling : Bool)
    (timerHandler : Option Handler) : Timers Thread Handler Action :=
  if enabling then
    let self := if self.numThreads = 0 then
      { self with sigprofAction := signalHandler, originalSigprofAction := self.sigprofAction }
      else self
    if timerHandler.isNone then { self with numThreads := self.numThreads + 1 } else self
  else
    let self := { self with numThreads := self.numThreads - 1 }
    if self.numThreads = 0 then { self with sigprofAction := self.originalSigprofAction } else self

def step (signalHandler : Action) (self : Timers Thread Handler Action) :
    Event Thread Handler → Option (Timers Thread Handler Action)
  | .critical thread interval handler fresh =>
    match self.returning thread with
    | some _ => none
    | none =>
      let timerHandler := (self.timerHandler thread).getD fresh
      let enabling := enables interval handler
      let next := critical signalHandler self enabling timerHandler
      some { next with
        timerHandler := Function.update self.timerHandler thread (some timerHandler)
        returning := Function.update self.returning thread (some (if enabling then handler else none)) }
  | .finish thread =>
    match self.returning thread with
    | none => none
    | some handler =>
      some { self with
        timerHandler := Function.update self.timerHandler thread (some handler)
        returning := Function.update self.returning thread none }

end Timers

/-!
The number of threads that use a timer, and the signal action that they share, over
all interleavings of their calls.
-/

namespace Timers

variable {Thread Handler Action : Type}

def uses (timers : Timers Thread Handler Action) (thread : Thread) : Bool :=
  match timers.returning thread with
  | some handler => handler.isSome
  | none => ((timers.timerHandler thread).getD none).isSome

variable [Fintype Thread]

def users (timers : Timers Thread Handler Action) : Finset Thread :=
  Finset.univ.filter fun thread => timers.uses thread = true

/-- The threads with a handler are counted, the action is installed while there are
some, and otherwise the action is the one from before. -/
structure Counted (signalHandler before : Action) (timers : Timers Thread Handler Action) : Prop where
  count : timers.numThreads.toNat = timers.users.card
  installed : 0 < timers.users.card → timers.sigprofAction = signalHandler
  restored : timers.users.card = 0 → timers.sigprofAction = before

variable {timers : Timers Thread Handler Action}

/-- A call finds storage that was created empty, disables a timer only if the thread
has one, and does not bring the counter around. -/
def Safe (timers : Timers Thread Handler Action) : Event Thread Handler → Prop
  | .critical thread interval handler fresh => timers.returning thread = none →
      (timers.timerHandler thread = none → fresh = none) ∧
      (enables interval handler = false → timers.uses thread = true) ∧
      (enables interval handler = true → timers.uses thread = false → timers.users.card + 1 < 2 ^ 32)
  | .finish _ => True

structure Invariant (signalHandler before : Action) (timers : Timers Thread Handler Action) : Prop where
  counted : Counted signalHandler before timers
  saved : 0 < timers.users.card → timers.originalSigprofAction = before

theorem mem_users {thread : Thread} : thread ∈ timers.users ↔ timers.uses thread = true := by
  simp [users]

section

variable [DecidableEq Thread] {signalHandler before : Action}
  {timers next : Timers Thread Handler Action}

theorem card_users (timers : Timers Thread Handler Action) (thread : Thread) :
    timers.users.card = (timers.users.erase thread).card + if timers.uses thread = true then 1 else 0 := by
  split
  next isUser => rw [Finset.card_erase_add_one (mem_users.mpr isUser)]
  next other => rw [Finset.erase_eq_of_notMem (mt mem_users.mp other), Nat.add_zero]

theorem card_users_of_others {thread : Thread}
    (others : ∀ other ≠ thread, next.uses other = timers.uses other) :
    next.users.card + (if timers.uses thread = true then 1 else 0) =
      timers.users.card + if next.uses thread = true then 1 else 0 := by
  have same : next.users.erase thread = timers.users.erase thread := by
    ext other
    simp only [Finset.mem_erase, mem_users]
    exact and_congr_right fun apart => by rw [others other apart]
  rw [card_users next thread, card_users timers thread, same]
  omega

omit [Fintype Thread] in
theorem uses_of_finish {thread : Thread} (stepped : step signalHandler timers (.finish thread) = some next) :
    next.uses = timers.uses ∧ next.numThreads = timers.numThreads ∧
      next.sigprofAction = timers.sigprofAction ∧
      next.originalSigprofAction = timers.originalSigprofAction := by
  rw [step] at stepped
  split at stepped
  next => cases stepped
  next handler called =>
    obtain rfl := Option.some.inj stepped
    refine ⟨funext fun other => ?_, rfl, rfl, rfl⟩
    by_cases same : other = thread
    · subst same
      simp [uses, called]
    · simp [uses, same]

structure Enters (signalHandler : Action) (timers next : Timers Thread Handler Action)
    (thread : Thread) (enabling had : Bool) : Prop where
  others : ∀ other ≠ thread, next.uses other = timers.uses other
  uses : next.uses thread = enabling
  shared : (next.numThreads, next.sigprofAction, next.originalSigprofAction) =
    if enabling then
      (if had then timers.numThreads else timers.numThreads + 1, if timers.numThreads = 0 then signalHandler
        else timers.sigprofAction, if timers.numThreads = 0 then timers.sigprofAction
        else timers.originalSigprofAction)
    else (timers.numThreads - 1, if timers.numThreads - 1 = 0 then timers.originalSigprofAction
      else timers.sigprofAction, timers.originalSigprofAction)

omit [Fintype Thread] in
theorem enters_of_step {thread : Thread} {interval : UInt64} {handler fresh : Option Handler}
    (idle : timers.returning thread = none) :
    ∃ next, step signalHandler timers (.critical thread interval handler fresh) = some next ∧
      Enters signalHandler timers next thread (enables interval handler)
        ((timers.timerHandler thread).getD fresh).isSome := by
  simp only [step, idle]
  refine ⟨_, rfl, ?_, ?_, ?_⟩
  · intro other apart
    simp [Timers.uses, apart]
  · simp only [Timers.uses, Function.update_self]
    cases enabling : enables interval handler with
    | false => simp
    | true =>
      rw [enables, Bool.and_eq_true] at enabling
      simpa using enabling.2
  · unfold critical
    cases enables interval handler with
    | false =>
      simp only [Bool.false_eq_true, if_false]
      split <;> rfl
    | true =>
      simp only [if_true]
      cases (timers.timerHandler thread).getD fresh with
      | none =>
        simp only [Option.isNone_none, Option.isSome_none, if_true, Bool.false_eq_true, if_false]
        split <;> rfl
      | some held =>
        simp only [Option.isNone_some, Option.isSome_some, Bool.false_eq_true, if_true, if_false]
        split <;> rfl

variable {before unset : Action}

omit [DecidableEq Thread] in
theorem invariant_new : Invariant signalHandler before (new before unset : Timers Thread Handler Action) := by
  have nobody : (new before unset : Timers Thread Handler Action).users = ∅ := by
    simp [users, uses, new]
  refine ⟨⟨?_, ?_, fun _ => rfl⟩, ?_⟩
  · rw [nobody]
    rfl
  · simp [nobody]
  · simp [nobody]

theorem Invariant.finish {thread : Thread} (invariant : Invariant signalHandler before timers)
    (stepped : step signalHandler timers (.finish thread) = some next) :
    Invariant signalHandler before next := by
  obtain ⟨uses, count, current, saved⟩ := uses_of_finish stepped
  have same : next.users = timers.users := by
    rw [users, users, uses]
  refine ⟨⟨?_, ?_, ?_⟩, ?_⟩
  · rw [count, same]
    exact invariant.counted.count
  · rw [current, same]
    exact invariant.counted.installed
  · rw [current, same]
    exact invariant.counted.restored
  · rw [saved, same]
    exact invariant.saved

theorem Enters.disables {thread : Thread} {had : Bool} (invariant : Invariant signalHandler before timers)
    (enters : Enters signalHandler timers next thread false had) :
    (timers.uses thread = true → Invariant signalHandler before next) ∧
      (Counted signalHandler before next → timers.uses thread = true) := by
  obtain ⟨⟨count, installed, restored⟩, saved⟩ := invariant
  obtain ⟨others, uses, shared⟩ := enters
  have cards := card_users_of_others others
  simp only [uses, Bool.false_eq_true, if_false, Prod.mk.injEq] at cards shared
  obtain ⟨countNext, current, savedNext⟩ := shared
  have value := UInt32.toNat_sub timers.numThreads 1
  rw [← countNext, UInt32.toNat_one] at value
  have bound := timers.numThreads.toNat_lt
  have zero : next.numThreads = 0 ↔ next.numThreads.toNat = 0 := by
    rw [← UInt32.toNat_inj, UInt32.toNat_zero]
  rw [← countNext] at current
  constructor
  · intro isUser
    rw [if_pos isUser] at cards
    refine ⟨⟨by omega, fun positive => ?_, fun nobody => ?_⟩, fun positive => ?_⟩
    · rw [current, if_neg (mt zero.mp (by omega))]
      exact installed (by omega)
    · rw [current, if_pos (zero.mpr (by omega))]
      exact saved (by omega)
    · rw [savedNext]
      exact saved (by omega)
  · intro counted
    have same := counted.count
    by_contra other
    rw [if_neg other] at cards
    omega

theorem Enters.enables {thread : Thread} {had : Bool} (invariant : Invariant signalHandler before timers)
    (enters : Enters signalHandler timers next thread true had)
    (seen : timers.uses thread = true → had = true) :
    ((timers.uses thread = false → had = false ∧ timers.users.card + 1 < 2 ^ 32) →
        Invariant signalHandler before next) ∧ (Counted signalHandler before next →
        timers.uses thread = false → had = false ∧ timers.users.card + 1 < 2 ^ 32) := by
  obtain ⟨⟨count, installed, restored⟩, saved⟩ := invariant
  obtain ⟨others, uses, shared⟩ := enters
  have cards := card_users_of_others others
  simp only [uses, if_true, Prod.mk.injEq] at cards shared
  obtain ⟨countNext, current, savedNext⟩ := shared
  have value := UInt32.toNat_add timers.numThreads 1
  rw [UInt32.toNat_one] at value
  have zero : timers.numThreads = 0 ↔ timers.users.card = 0 := by
    rw [← UInt32.toNat_inj, UInt32.toNat_zero, count]
  -- whatever the count becomes, our handler is installed and the action before it is saved
  have installedNext : next.sigprofAction = signalHandler := by
    rw [current]
    split
    next => rfl
    next more => exact installed (Nat.pos_of_ne_zero (mt zero.mpr more))
  have original : next.originalSigprofAction = before := by
    rw [savedNext]
    split
    next first => exact restored (zero.mp first)
    next more => exact saved (Nat.pos_of_ne_zero (mt zero.mpr more))
  constructor
  · intro safe
    have counted : next.numThreads.toNat = next.users.card := by
      cases isUser : timers.uses thread with
      | true =>
        rw [seen isUser, if_pos rfl] at countNext
        rw [isUser, if_pos rfl] at cards
        rw [countNext]
        omega
      | false =>
        obtain ⟨notHad, room⟩ := safe isUser
        rw [notHad, if_neg (by simp)] at countNext
        rw [isUser, if_neg (by simp)] at cards
        rw [countNext]
        omega
    have isUser := card_users next thread
    rw [uses, if_pos rfl] at isUser
    exact ⟨⟨counted, fun _ => installedNext, fun nobody => by omega⟩, fun _ => original⟩
  · intro counted isUser
    have same := counted.count
    have bound := next.numThreads.toNat_lt
    rw [isUser, if_neg (by simp)] at cards
    cases had with
    | true =>
      rw [if_pos rfl] at countNext
      rw [countNext] at same
      omega
    | false => exact ⟨rfl, by omega⟩

omit [Fintype Thread] [DecidableEq Thread] in
theorem uses_of_idle {thread : Thread} (idle : timers.returning thread = none) :
    timers.uses thread = ((timers.timerHandler thread).getD none).isSome := by
  simp only [Timers.uses, idle]

theorem enters_iff {thread : Thread} {interval : UInt64} {handler fresh : Option Handler}
    (invariant : Invariant signalHandler before timers) (idle : timers.returning thread = none) :
    ∃ next, step signalHandler timers (.critical thread interval handler fresh) = some next ∧
      (Safe timers (.critical thread interval handler fresh) → Invariant signalHandler before next) ∧
      (Counted signalHandler before next → Safe timers (.critical thread interval handler fresh)) := by
  obtain ⟨next, stepped, enters⟩ := @enters_of_step _ _ _ _ signalHandler timers thread interval
    handler fresh idle
  refine ⟨next, stepped, ?_⟩
  have used := uses_of_idle idle
  simp only [Safe, idle, true_imp_iff]
  cases enabling : Timers.enables interval handler with
  | false =>
    rw [enabling] at enters
    obtain ⟨keeps, needs⟩ := enters.disables invariant
    refine ⟨fun safe => keeps (safe.2.1 rfl), fun counted => ⟨fun missing => ?_, fun _ => needs counted,
      by simp⟩⟩
    have isUser := needs counted
    rw [used, missing] at isUser
    simp at isUser
  | true =>
    rw [enabling] at enters
    obtain ⟨keeps, needs⟩ := enters.enables invariant (by
      rw [used]
      cases timers.timerHandler thread <;> simp)
    constructor
    · rintro ⟨empty, -, room⟩
      refine keeps fun free => ⟨?_, room rfl free⟩
      cases stored : timers.timerHandler thread with
      | none => simp [empty stored]
      | some held =>
        rw [used, stored] at free
        simpa using free
    · intro counted
      refine ⟨fun missing => ?_, by simp, fun _ free => (needs counted free).2⟩
      have notHad := (needs counted (by simp [used, missing])).1
      simpa [missing] using notHad

/-- Over any interleaving of calls, the count, the installed action and its restoring
are right in every state exactly when every call is safe. -/
theorem counted_iff_safe {events : List (Event Thread Handler)} :
    Runs.Always (Counted signalHandler before) (step signalHandler)
        (new before unset : Timers Thread Handler Action) events ↔
      Runs.Along Safe (step signalHandler) (new before unset) events := by
  refine Runs.always_iff_along (Invariant signalHandler before) (fun _ invariant => invariant.counted)
    (fun timers event next invariant safe stepped => ?_) (fun timers event invariant unsafeEvent => ?_)
    invariant_new
  · cases event with
    | critical thread interval handler fresh =>
      cases idle : timers.returning thread with
      | some called => simp [step, idle] at stepped
      | none =>
        obtain ⟨expected, enters, keeps, -⟩ := @enters_iff _ _ _ _ _ signalHandler timers before
          thread interval handler fresh invariant idle
        obtain rfl := Option.some.inj (enters.symm.trans stepped)
        exact keeps safe
    | finish thread => exact invariant.finish stepped
  · cases event with
    | critical thread interval handler fresh =>
      cases idle : timers.returning thread with
      | some called => exact absurd (fun free => by simp [idle] at free) unsafeEvent
      | none =>
        obtain ⟨next, enters, -, needs⟩ := @enters_iff _ _ _ _ _ signalHandler timers before
          thread interval handler fresh invariant idle
        exact ⟨next, enters, fun counted => unsafeEvent (needs counted)⟩
    | finish thread => exact absurd trivial unsafeEvent

end

theorem disabledTwice_wraps : ¬ Runs.Always (Counted "signalHandler" "default") (step "signalHandler")
    (new "default" "unset" : Timers Unit String String) [.critical () 0 none none] := by
  rintro ⟨-, always⟩
  have counted := always _ rfl
  exact absurd counted.count (by decide)

end Timers

end OpenSpeedShop
