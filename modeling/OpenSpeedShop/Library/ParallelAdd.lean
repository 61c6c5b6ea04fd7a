import OpenSpeedShop.Library.Runs

/-!
Concurrent workers that add amounts to the cells of a shared memory. An addition
is a load and a store, and those of different workers interleave freely.
-/

open Function (update_of_ne update_self update)

namespace ParallelAdd

variable {Cell Value : Type}

structure Worker (Cell Value : Type) where
  pending : List Cell
  loaded : Option Value

structure Config (Cell Value : Type) where
  memory : Cell → Value
  workers : Nat → Worker Cell Value

def start (memory : Cell → Value) (cells : Nat → List Cell) : Config Cell Value where
  memory := memory
  workers worker := ⟨cells worker, none⟩

section

variable [DecidableEq Cell] [Add Value]

def step (amount : Nat → Cell → Value) (config : Config Cell Value) (worker : Nat) :
    Option (Config Cell Value) :=
  match config.workers worker with
  | ⟨[], _⟩ => none
  | ⟨cell :: rest, none⟩ => some { config with
      workers := Function.update config.workers worker ⟨cell :: rest, some (config.memory cell)⟩ }
  | ⟨cell :: rest, some value⟩ => some {
      memory := Function.update config.memory cell (value + amount worker cell)
      workers := Function.update config.workers worker ⟨rest, none⟩ }

end

def Finished (config : Config Cell Value) : Prop := ∀ worker, (config.workers worker).pending = []

structure Separate (cells : Nat → List Cell) : Prop where
  nodup : ∀ worker, (cells worker).Nodup
  disjoint : ∀ first second, first ≠ second → ∀ cell ∈ cells first, cell ∉ cells second

structure Progress [Add Value] (memory : Cell → Value) (amount : Nat → Cell → Value)
    (cells : Nat → List Cell) (finished : Nat → List Cell) (config : Config Cell Value) : Prop where
  parts : ∀ worker, cells worker = finished worker ++ (config.workers worker).pending
  loaded : ∀ worker value, (config.workers worker).loaded = some value →
    ∃ cell rest, (config.workers worker).pending = cell :: rest ∧ value = memory cell
  added : ∀ worker, ∀ cell ∈ finished worker, config.memory cell = memory cell + amount worker cell
  kept : ∀ cell, (∀ worker, cell ∉ finished worker) → config.memory cell = memory cell

variable [Add Value] {memory : Cell → Value} {amount : Nat → Cell → Value} {cells : Nat → List Cell}

theorem start_progress : Progress memory amount cells (fun _ => []) (start memory cells) where
  parts _ := rfl
  loaded _ _ impossible := by cases impossible
  added _ _ member := by cases member
  kept _ _ := rfl

theorem Progress.unfinished {finished : Nat → List Cell} {config : Config Cell Value}
    (separate : Separate cells) (progress : Progress memory amount cells finished config)
    {worker : Nat} {cell : Cell} {rest : List Cell}
    (pending : (config.workers worker).pending = cell :: rest) (other : Nat) : cell ∉ finished other := by
  intro done
  have here : cell ∈ cells worker := by rw [progress.parts, pending]; simp
  have there : cell ∈ cells other := by rw [progress.parts]; simp [done]
  by_cases same : other = worker
  · subst same
    have nodup := separate.nodup other
    rw [progress.parts, pending] at nodup
    exact (List.nodup_append.mp nodup).2.2 cell done cell (by simp) rfl
  · exact separate.disjoint other worker same cell there here

theorem step_progress [DecidableEq Cell] (separate : Separate cells) {finished : Nat → List Cell}
    {config next : Config Cell Value} (progress : Progress memory amount cells finished config)
    {worker : Nat} (stepped : step amount config worker = some next) :
    ∃ finished, Progress memory amount cells finished next := by
  obtain ⟨pending, loaded, same⟩ : ∃ pending loaded, config.workers worker = ⟨pending, loaded⟩ :=
    ⟨_, _, rfl⟩
  rw [step, same] at stepped
  cases pending with
  | nil => cases stepped
  | cons cell rest =>
    have pendingHere : (config.workers worker).pending = cell :: rest := by rw [same]
    have unfinished := progress.unfinished separate pendingHere
    cases loaded with
    | none =>
      -- The load: memory and pending cells stay as they are.
      obtain rfl := Option.some.inj stepped
      refine ⟨finished, fun other => ?_, fun other value => ?_, progress.added, progress.kept⟩
      · dsimp only
        by_cases here : other = worker
        · subst here
          rw [progress.parts other, pendingHere, update_self]
        · rw [progress.parts other, update_of_ne here]
      · dsimp only
        by_cases here : other = worker
        · subst here
          rw [update_self]
          intro holds
          exact ⟨cell, rest, rfl, (Option.some.inj holds).symm.trans (progress.kept cell unfinished)⟩
        · rw [update_of_ne here]
          exact progress.loaded other value
    | some value =>
      -- The store: the cell moves from the pending to the finished ones.
      obtain rfl := Option.some.inj stepped
      have loadedHere : (config.workers worker).loaded = some value := by rw [same]
      obtain ⟨_, _, pendingAgain, valueEq⟩ := progress.loaded worker value loadedHere
      obtain ⟨rfl, rfl⟩ := List.cons.inj (pendingHere.symm.trans pendingAgain)
      refine ⟨update finished worker (finished worker ++ [cell]), ?_, ?_, ?_, ?_⟩
      · intro other
        dsimp only
        by_cases here : other = worker
        · subst here
          rw [progress.parts other, pendingHere, update_self, update_self, List.append_assoc]
          rfl
        · rw [progress.parts other, update_of_ne here, update_of_ne here]
      · intro other held holds
        dsimp only at holds ⊢
        by_cases here : other = worker
        · subst here
          rw [update_self] at holds
          cases holds
        · rw [update_of_ne here] at holds ⊢
          exact progress.loaded other held holds
      · intro other done member
        dsimp only
        by_cases here : other = worker
        · subst here
          rw [update_self, List.mem_append, List.mem_singleton] at member
          rcases member with before | rfl
          · have apart : done ≠ cell := fun equal => unfinished other (equal ▸ before)
            rw [update_of_ne apart]
            exact progress.added other done before
          · rw [update_self, valueEq]
        · rw [update_of_ne here] at member
          have apart : done ≠ cell := fun equal => unfinished other (equal ▸ member)
          rw [update_of_ne apart]
          exact progress.added other done member
      · intro other untouched
        dsimp only
        have apart : other ≠ cell := by
          rintro rfl
          apply untouched worker
          rw [update_self]
          simp
        rw [update_of_ne apart]
        refine progress.kept other fun someone member => ?_
        apply untouched someone
        by_cases here : someone = worker
        · subst here
          rw [update_self]
          simp [member]
        · rwa [update_of_ne here]

theorem run_progress [DecidableEq Cell] (separate : Separate cells) {schedule : List Nat}
    {final : Config Cell Value} (ran : Runs.run (step amount) (start memory cells) schedule = some final) :
    ∃ finished, Progress memory amount cells finished final :=
  Runs.run_invariant (fun config => ∃ done, Progress memory amount cells done config)
    ⟨_, start_progress⟩
    (fun _ _ _ ⟨_, progress⟩ stepped => step_progress separate progress stepped) ran

theorem run_finished [DecidableEq Cell] (separate : Separate cells) {schedule : List Nat}
    {final : Config Cell Value} (ran : Runs.run (step amount) (start memory cells) schedule = some final)
    (finished : Finished final) :
    (∀ worker, ∀ cell ∈ cells worker, final.memory cell = memory cell + amount worker cell) ∧
      ∀ cell, (∀ worker, cell ∉ cells worker) → final.memory cell = memory cell := by
  obtain ⟨done, progress⟩ := run_progress separate ran
  have same : ∀ worker, cells worker = done worker := by
    intro worker
    rw [progress.parts worker, finished worker, List.append_nil]
  exact ⟨fun worker cell member => progress.added worker cell (same worker ▸ member),
    fun cell untouched => progress.kept cell fun worker => same worker ▸ untouched worker⟩

section

variable [DecidableEq Cell]

theorem exists_worker_finished (worker : Nat) (pending : List Cell) :
    ∃ schedule, ∀ (config : Config Cell Value), config.workers worker = ⟨pending, none⟩ →
      ∃ next, Runs.run (step amount) config schedule = some next ∧ next.workers worker = ⟨[], none⟩ ∧
        ∀ other ≠ worker, next.workers other = config.workers other := by
  induction pending with
  | nil => exact ⟨[], fun config here => ⟨config, rfl, here, fun _ _ => rfl⟩⟩
  | cons cell rest ih =>
    obtain ⟨schedule, finishes⟩ := ih
    refine ⟨worker :: worker :: schedule, fun config here => ?_⟩
    let loaded : Config Cell Value := { config with
      workers := update config.workers worker ⟨cell :: rest, some (config.memory cell)⟩ }
    let stored : Config Cell Value := {
      memory := update loaded.memory cell (config.memory cell + amount worker cell)
      workers := update loaded.workers worker ⟨rest, none⟩ }
    have load : step amount config worker = some loaded := by rw [step, here]
    have held : loaded.workers worker = ⟨cell :: rest, some (config.memory cell)⟩ :=
      update_self worker _ _
    have store : step amount loaded worker = some stored := by rw [step, held]
    obtain ⟨next, ran, done, others⟩ := finishes stored (update_self worker _ _)
    refine ⟨next, ?_, done, ?_⟩
    · rw [Runs.run_cons, load, Option.bind_some, Runs.run_cons, store, Option.bind_some]
      exact ran
    · intro other apart
      rw [others other apart]
      exact (update_of_ne apart _ _).trans (update_of_ne apart _ _)

theorem exists_run_finished (amount : Nat → Cell → Value) (cells : Nat → List Cell) (count : Nat) :
    ∃ schedule, ∀ memory : Cell → Value, ∃ final,
      Runs.run (step amount) (start memory cells) schedule = some final ∧
      (∀ worker < count, (final.workers worker).pending = []) ∧
      ∀ worker, count ≤ worker → final.workers worker = ⟨cells worker, none⟩ := by
  induction count with
  | zero => exact ⟨[], fun _ => ⟨_, rfl, fun _ bound => by omega, fun _ _ => rfl⟩⟩
  | succ count ih =>
    obtain ⟨schedule, reaches⟩ := ih
    obtain ⟨more, finishes⟩ := @exists_worker_finished _ _ _ amount _ count (cells count)
    refine ⟨schedule ++ more, fun memory => ?_⟩
    obtain ⟨middle, ran, before, after⟩ := reaches memory
    obtain ⟨final, ranMore, done, others⟩ := finishes middle (after count (Nat.le_refl count))
    refine ⟨final, ?_, ?_, ?_⟩
    · rw [Runs.run_append, ran, Option.bind_some, ranMore]
    · intro worker bound
      by_cases last : worker = count
      · rw [last, done]
      · rw [others worker last]
        exact before worker (by omega)
    · intro worker bound
      rw [others worker (by omega)]
      exact after worker (by omega)

end

end ParallelAdd
