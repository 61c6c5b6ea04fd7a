import Mathlib.Logic.Function.Basic

/-!
Locks of threads that each go through phases of their own. A lock guards the
phases in which its owner, and nobody else, can be.
-/

structure Lock (Thread : Type*) where
  owner : Option Thread
  misused : List Thread
  deriving DecidableEq

open Function (update update_self update_of_ne)

namespace Lock

variable {Thread Phase : Type*}

def free : Lock Thread := ⟨none, []⟩

def acquire (thread : Thread) (lock : Lock Thread) : Option (Lock Thread) :=
  if lock.owner.isNone then some { lock with owner := some thread } else none

def release [DecidableEq Thread] (thread : Thread) (lock : Lock Thread) : Lock Thread where
  owner := none
  misused := if lock.owner = some thread then lock.misused else lock.misused ++ [thread]

theorem acquire_eq_some {thread : Thread} {lock next : Lock Thread} :
    lock.acquire thread = some next ↔ lock.owner = none ∧ next = ⟨some thread, lock.misused⟩ := by
  unfold acquire
  cases lock.owner with
  | none => simp [eq_comm]
  | some other => simp

@[simp] theorem release_owner [DecidableEq Thread] (thread : Thread) (lock : Lock Thread) :
    (lock.release thread).owner = none := rfl

theorem release_misused [DecidableEq Thread] {thread : Thread} {lock : Lock Thread}
    (owned : lock.owner = some thread) : (lock.release thread).misused = lock.misused := by
  rw [release, if_pos owned]

def Guards (inside : Phase → Bool) (phase : Thread → Phase) (owner : Option Thread) : Prop :=
  ∀ thread, inside (phase thread) = true ↔ owner = some thread

section

variable {inside : Phase → Bool} {phase : Thread → Phase} {owner : Option Thread}

theorem Guards.unique (guards : Guards inside phase owner) {first second : Thread}
    (firstInside : inside (phase first) = true) (secondInside : inside (phase second) = true) :
    first = second := by
  have firstOwns := (guards first).mp firstInside
  have secondOwns := (guards second).mp secondInside
  exact Option.some.inj (firstOwns.symm.trans secondOwns)

variable [DecidableEq Thread] {thread : Thread} {next : Phase}

theorem Guards.stay (guards : Guards inside phase owner) (same : inside next = inside (phase thread)) :
    Guards inside (update phase thread next) owner := by
  intro other
  by_cases isThread : other = thread
  · rw [isThread, update_self, same]
    exact guards thread
  · rw [update_of_ne isThread]
    exact guards other

theorem Guards.enter (guards : Guards inside phase none) (into : inside next = true) :
    Guards inside (update phase thread next) (some thread) := by
  intro other
  by_cases isThread : other = thread
  · rw [isThread, update_self]
    exact iff_of_true into rfl
  · rw [update_of_ne isThread]
    refine iff_of_false (fun inOther => ?_) fun same => isThread (Option.some.inj same).symm
    exact absurd ((guards other).mp inOther) (by simp)

theorem Guards.leave (guards : Guards inside phase (some thread)) (out : inside next = false) :
    Guards inside (update phase thread next) none := by
  intro other
  by_cases isThread : other = thread
  · rw [isThread, update_self, out]
    simp
  · rw [update_of_ne isThread]
    refine iff_of_false (fun inOther => ?_) (by simp)
    exact isThread (Option.some.inj ((guards other).mp inOther)).symm

end

end Lock
