import OpenSpeedShop.Cli.WatcherCore

/-!
The watcher works on a private copy of the list. Requests stay in the list, and deleted items out of it,
in exactly the runs in which nobody changes it in the meantime.
-/

namespace OpenSpeedShop.Watcher

structure Sound (state : State) : Prop where
  kept : ∀ wi < state.items.length, wi ∉ state.released → wi ∈ state.list
  gone : ∀ wi ∈ state.deleted, wi ∉ state.list
  faultless : state.faults = []
  asleep : state.control = .asleep → state.waitingToWatch = true → state.list = []

def UpToDate (state : State) : Input → Prop
  | .watch answer =>
    match state.control with
    | .scan (wi :: _) => wi ∉ state.deleted
    | .status wi _ => (state.found wi answer).any ExpStatus.ended = true → wi ∉ state.deleted
    | .purge wi _ => (∀ other ∈ state.list, other ≠ wi → other ∈ state.copy) ∧
        ∀ other ∈ state.copy, other ≠ wi → other ∉ state.deleted
    | .delete wi _ => wi ∉ state.deleted
    | .scan [] => state.copy = [] → state.list = []
    | _ => True
  | _ => True

def Control.items : Control → List Nat
  | .scan rest => rest
  | .status wi rest | .purge wi rest | .delete wi rest => wi :: rest
  | _ => []

def Control.Finishing (control : Control) (wi : Nat) : Prop :=
  (∃ rest, control = .purge wi rest) ∨ (∃ rest, control = .delete wi rest) ∨ control = .exited

structure Inv (state : State) : Prop where
  sound : Sound state
  listBound : ∀ wi ∈ state.list, wi < state.items.length
  copyBound : ∀ wi ∈ state.copy, wi < state.items.length
  controlBound : ∀ wi ∈ state.control.items, wi < state.items.length
  deletedBound : ∀ wi ∈ state.deleted, wi < state.items.length
  releasedBound : ∀ wi ∈ state.released, wi < state.items.length
  listed : ∀ wi ∈ state.list, wi ∈ state.released → ∃ rest, state.control = .purge wi rest
  deletedOr : ∀ wi ∈ state.released, wi ∈ state.deleted ∨ state.control.Finishing wi
  purging : ∀ wi rest, state.control = .purge wi rest → wi ∈ state.released
  deleting : ∀ wi rest, state.control = .delete wi rest → wi ∉ state.list

theorem initial_inv : Inv initial where
  sound := {
    kept := fun _ bound => absurd bound (Nat.not_lt_zero _)
    gone := fun _ member => absurd member List.not_mem_nil
    faultless := rfl
    asleep := fun _ _ => rfl }
  listBound _ member := absurd member List.not_mem_nil
  copyBound _ member := absurd member List.not_mem_nil
  controlBound _ member := absurd member List.not_mem_nil
  deletedBound _ member := absurd member List.not_mem_nil
  releasedBound _ member := absurd member List.not_mem_nil
  listed _ member := absurd member List.not_mem_nil
  deletedOr _ member := absurd member List.not_mem_nil
  purging _ _ same := by cases same
  deleting _ _ same := by cases same

section

variable {state : State}

section

variable (inv : Inv state)
include inv

theorem removeAll_inv (matching : WatchItem → Bool) : Inv (state.removeAll matching) := by
  have inside : ∀ wi, wi ∈ (state.removeAll matching).list ↔
      wi ∈ state.list ∧ state.isItem matching wi = false := by
    intro wi
    simp [State.removeAll]
  have deleted : ∀ wi, wi ∈ (state.removeAll matching).deleted ↔
      wi ∈ state.deleted ∨ wi ∈ state.list ∧ state.isItem matching wi = true := by
    intro wi
    simp [State.removeAll]
  have released : ∀ wi, wi ∈ (state.removeAll matching).released ↔
      wi ∈ state.released ∨ wi ∈ state.list ∧ state.isItem matching wi = true := by
    intro wi
    simp [State.removeAll]
  refine ⟨⟨?_, ?_, inv.sound.faultless, ?_⟩, ?_, inv.copyBound, inv.controlBound, ?_, ?_, ?_, ?_, ?_, ?_⟩
  · intro wi bound unreleased
    rw [released, not_or] at unreleased
    have member := inv.sound.kept wi bound unreleased.1
    rw [inside]
    exact ⟨member, by simpa [member] using unreleased.2⟩
  · intro wi gone member
    rw [inside] at member
    rcases (deleted wi).mp gone with before | ⟨-, matches'⟩
    · exact inv.sound.gone wi before member.1
    · exact Bool.noConfusion (member.2.symm.trans matches')
  · intro asleep waiting
    have none := inv.sound.asleep asleep waiting
    simp [State.removeAll, none]
  · intro wi member
    exact inv.listBound wi ((inside wi).mp member).1
  · intro wi member
    rcases (deleted wi).mp member with before | ⟨listed, -⟩
    · exact inv.deletedBound wi before
    · exact inv.listBound wi listed
  · intro wi member
    rcases (released wi).mp member with before | ⟨listed, -⟩
    · exact inv.releasedBound wi before
    · exact inv.listBound wi listed
  · intro wi member done
    rw [inside] at member
    rcases (released wi).mp done with before | ⟨-, matches'⟩
    · exact inv.listed wi member.1 before
    · exact Bool.noConfusion (member.2.symm.trans matches')
  · intro wi member
    rcases (released wi).mp member with before | removed
    · rcases inv.deletedOr wi before with gone | finishing
      · exact .inl ((deleted wi).mpr (.inl gone))
      · exact .inr finishing
    · exact .inl ((deleted wi).mpr (.inr removed))
  · intro wi rest same
    exact (released wi).mpr (.inl (inv.purging wi rest same))
  · intro wi rest same member
    exact inv.deleting wi rest same ((inside wi).mp member).1

theorem post_inv (item : WatchItem) : Inv (state.post item) := by
  have inside : ∀ wi, wi ∈ (state.post item).list ↔ wi ∈ state.list ∨ wi = state.items.length := by
    intro wi
    simp [State.post]
  have bound : ∀ {wi}, wi < (state.post item).items.length ↔
      wi < state.items.length ∨ wi = state.items.length := by
    intro wi
    simp only [State.post, List.length_append, List.length_singleton]
    omega
  refine ⟨⟨?_, ?_, inv.sound.faultless, fun _ waiting => by cases waiting⟩, ?_,
    fun wi member => bound.mpr (.inl (inv.copyBound wi member)),
    fun wi member => bound.mpr (.inl (inv.controlBound wi member)),
    fun wi member => bound.mpr (.inl (inv.deletedBound wi member)),
    fun wi member => bound.mpr (.inl (inv.releasedBound wi member)), ?_, inv.deletedOr,
    inv.purging, ?_⟩
  · intro wi below unreleased
    rw [inside]
    rcases bound.mp below with before | last
    · exact .inl (inv.sound.kept wi before unreleased)
    · exact .inr last
  · intro wi gone member
    rcases (inside wi).mp member with before | rfl
    · exact inv.sound.gone wi gone before
    · exact Nat.lt_irrefl _ (inv.deletedBound _ gone)
  · intro wi member
    rcases (inside wi).mp member with before | last
    · exact bound.mpr (.inl (inv.listBound wi before))
    · exact bound.mpr (.inr last)
  · intro wi member done
    rcases (inside wi).mp member with before | rfl
    · exact inv.listed wi before done
    · exact absurd (inv.releasedBound _ done) (Nat.lt_irrefl _)
  · intro wi rest same member
    have known : wi ∈ state.control.items := by
      have here : state.control = .delete wi rest := same
      simp [here, Control.items]
    rcases (inside wi).mp member with before | rfl
    · exact inv.deleting wi rest same before
    · exact Nat.lt_irrefl _ (inv.controlBound _ known)

theorem Inv.side (requests : List WatchItem) (waiters : List Nat) (messages : List (CMDWID × EXPID)) :
    Inv { state with requests := requests, waiters := waiters, messages := messages } :=
  ⟨⟨inv.sound.kept, inv.sound.gone, inv.sound.faultless, inv.sound.asleep⟩, inv.listBound,
    inv.copyBound, inv.controlBound, inv.deletedBound, inv.releasedBound, inv.listed,
    inv.deletedOr, inv.purging, inv.deleting⟩

theorem cancleAsyncNotice_inv (exp : Option EXPID) : Inv (cancleAsyncNotice exp state) := by
  rw [cancleAsyncNotice]
  split
  · exact inv
  · exact removeAll_inv inv _

theorem cancleExpWait_inv (exp : Option EXPID) : Inv (cancleExpWait exp state) := by
  rw [cancleExpWait]
  split
  · exact inv
  · exact removeAll_inv inv _

theorem purgeWatcherEvents_inv : Inv (purgeWatcherEvents state) := by
  rw [purgeWatcherEvents]
  split
  · exact inv
  · exact removeAll_inv inv _

theorem purgeWatcherWaits_inv : Inv (purgeWatcherWaits state) := by
  rw [purgeWatcherWaits]
  split
  · exact inv
  · exact removeAll_inv inv _

theorem requestAsyncNoticeOfTermination_inv (clip : Option CMDWID)
    (exp : Option EXPID) : Inv (requestAsyncNoticeOfTermination clip exp state) := by
  unfold requestAsyncNoticeOfTermination
  split
  · exact inv
  · split
    · exact (cancleAsyncNotice_inv inv _).side _ _ _
    · exact inv

theorem waitForExp_inv (exp : Option EXPID) : Inv (waitForExp exp state) := by
  unfold waitForExp
  split
  · exact inv
  · split
    · exact inv
    · exact post_inv (inv.side _ _ _) _

theorem postNotice_inv {request : Nat} {next : State}
    (stepped : postNotice request state = some next) : Inv next := by
  obtain ⟨item, -, same⟩ := Option.bind_eq_some_iff.mp stepped
  obtain rfl := Option.some.inj same
  exact post_inv (inv.side _ _ _) _

theorem purgeWatcherEvents_list (active : state.watcherActive = true) :
    (purgeWatcherEvents state).list = [] := by
  rw [purgeWatcherEvents, active]
  refine List.filter_eq_nil_iff.mpr fun wi member => ?_
  have bound := inv.listBound wi member
  simp [State.isItem, List.getElem?_eq_getElem bound]

theorem catchTLISignal_inv {next : State} (stepped : catchTLISignal state = some next) : Inv next := by
  rw [catchTLISignal] at stepped
  split at stepped
  · cases stepped
  · rename_i running
    have active : state.watcherActive = true := by
      cases known : state.watcherActive with
      | true => rfl
      | false => simp [known] at running
    have empty := purgeWatcherEvents_list inv active
    have purged := purgeWatcherEvents_inv inv
    obtain rfl := Option.some.inj stepped
    refine ⟨⟨purged.sound.kept, purged.sound.gone, purged.sound.faultless, fun same => ?_⟩,
      purged.listBound, purged.copyBound, fun wi member => absurd member List.not_mem_nil,
      purged.deletedBound, purged.releasedBound, fun wi member => ?_, fun wi member =>
      .inr (.inr (.inr rfl)), fun wi rest same => ?_, fun wi rest same => ?_⟩
    · cases same
    · rw [show _ = [] from empty] at member
      cases member
    · cases same
    · cases same

end

end

section

variable {state next : State}

variable {wi : Nat}

theorem dereference_of_kept (kept : wi ∉ state.deleted) : state.dereference wi = state :=
  if_neg kept

theorem dereference_faults (gone : wi ∈ state.deleted) : (state.dereference wi).faults ≠ [] := by
  rw [State.dereference, if_pos gone]
  simp

theorem Inv.move (inv : Inv state) (settled : ∀ wi, ¬ state.control.Finishing wi)
    {control : Control} (bound : ∀ wi ∈ control.items, wi < state.items.length)
    (awake : control = .asleep → state.list = []) (purging : ∀ wi rest, control ≠ .purge wi rest)
    (deleting : ∀ wi rest, control ≠ .delete wi rest) : Inv { state with control := control } := by
  refine ⟨⟨inv.sound.kept, inv.sound.gone, inv.sound.faultless, fun same _ => awake same⟩,
    inv.listBound, inv.copyBound, bound, inv.deletedBound, inv.releasedBound, ?_, ?_,
    fun wi rest same => absurd same (purging wi rest),
    fun wi rest same => absurd same (deleting wi rest)⟩
  · intro wi member released
    exact absurd (.inl (inv.listed wi member released)) (settled wi)
  · intro wi released
    exact .inl ((inv.deletedOr wi released).resolve_right (settled wi))

theorem notify_inv (inv : Inv state) (wi : Nat) : Inv (state.notify wi) := by
  unfold State.notify
  split
  · exact inv.side _ _ _
  · exact inv.side _ _ _
  · exact inv

@[simp] theorem notify_control (wi : Nat) : (state.notify wi).control = state.control := by
  unfold State.notify
  split <;> rfl

@[simp] theorem notify_faults (wi : Nat) : (state.notify wi).faults = state.faults := by
  unfold State.notify
  split <;> rfl

variable {rest : List Nat}

theorem release_inv (inv : Inv state) (here : state.control = .status wi rest) :
    Inv { state with released := state.released ++ [wi], control := .purge wi rest } := by
  have settled : ∀ other, ¬ state.control.Finishing other := by
    intro other
    simp [Control.Finishing, here]
  have bound := inv.controlBound
  rw [here] at bound
  have released : ∀ other, other ∈ state.released ++ [wi] ↔ other ∈ state.released ∨ other = wi := by
    simp
  refine ⟨⟨fun other below unreleased => ?_, inv.sound.gone, inv.sound.faultless, fun same => ?_⟩,
    inv.listBound, inv.copyBound, bound, inv.deletedBound, fun other member => ?_,
    fun other member done => ?_, fun other done => ?_, fun other rest' same => ?_,
    fun other rest' same => ?_⟩
  · exact inv.sound.kept other below fun before => unreleased ((released other).mpr (.inl before))
  · cases same
  · rcases (released other).mp member with before | rfl
    · exact inv.releasedBound other before
    · exact bound other List.mem_cons_self
  · rcases (released other).mp done with before | rfl
    · exact absurd (.inl (inv.listed other member before)) (settled other)
    · exact ⟨rest, rfl⟩
  · rcases (released other).mp done with before | rfl
    · exact .inl ((inv.deletedOr other before).resolve_right (settled other))
    · exact .inr (.inl ⟨rest, rfl⟩)
  · cases same
    exact (released _).mpr (.inr rfl)
  · cases same

theorem writeBack_inv (inv : Inv state) (here : state.control = .purge wi rest)
    (complete : ∀ other ∈ state.list, other ≠ wi → other ∈ state.copy)
    (fresh : ∀ other ∈ state.copy, other ≠ wi → other ∉ state.deleted) : Inv { state with
      copy := state.copy.filter (· ≠ wi)
      list := state.copy.filter (· ≠ wi)
      control := .delete wi rest } := by
  have inside : ∀ other, other ∈ state.copy.filter (· ≠ wi) ↔ other ∈ state.copy ∧ other ≠ wi := by
    simp
  have bound := inv.controlBound
  rw [here] at bound
  have released := inv.purging wi rest here
  have finishing : ∀ other, state.control.Finishing other → other = wi := by
    intro other
    simp [Control.Finishing, here, eq_comm]
  refine ⟨⟨fun other below unreleased => ?_, fun other gone member => ?_, inv.sound.faultless,
    fun same => ?_⟩, fun other member => ?_, fun other member => ?_, bound, inv.deletedBound,
    inv.releasedBound, fun other member done => ?_, fun other done => ?_,
    fun other rest' same => ?_, fun other rest' same => ?_⟩
  · have apart : other ≠ wi := fun same => unreleased (same ▸ released)
    exact (inside other).mpr ⟨complete other (inv.sound.kept other below unreleased) apart, apart⟩
  · obtain ⟨copied, apart⟩ := (inside other).mp member
    exact fresh other copied apart gone
  · cases same
  · exact inv.copyBound other ((inside other).mp member).1
  · exact inv.copyBound other ((inside other).mp member).1
  · obtain ⟨copied, apart⟩ := (inside other).mp member
    rcases inv.deletedOr other done with gone | known
    · exact absurd gone (fresh other copied apart)
    · exact absurd (finishing other known) apart
  · rcases inv.deletedOr other done with gone | known
    · exact .inl gone
    · exact .inr (.inr (.inl ⟨rest, by rw [finishing other known]⟩))
  · cases same
  · cases same
    exact fun member => ((inside _).mp member).2 rfl

theorem delete_inv (inv : Inv state) (here : state.control = .delete wi rest) (waiters : List Nat) :
    Inv { state with
      waiters := waiters
      deleted := state.deleted ++ [wi]
      control := .scan rest } := by
  have bound := inv.controlBound
  rw [here] at bound
  have deleted : ∀ other, other ∈ state.deleted ++ [wi] ↔ other ∈ state.deleted ∨ other = wi := by
    simp
  refine ⟨⟨inv.sound.kept, fun other gone => ?_, inv.sound.faultless, fun same => ?_⟩,
    inv.listBound, inv.copyBound, fun other member => bound other (List.mem_cons_of_mem wi member),
    fun other member => ?_, inv.releasedBound, fun other member done => ?_, fun other done => ?_,
    fun other rest' same => ?_, fun other rest' same => ?_⟩
  · rcases (deleted other).mp gone with before | rfl
    · exact inv.sound.gone other before
    · exact inv.deleting other rest here
  · cases same
  · rcases (deleted other).mp member with before | rfl
    · exact inv.deletedBound other before
    · exact bound other List.mem_cons_self
  · obtain ⟨_, impossible⟩ := inv.listed other member done
    rw [here] at impossible
    cases impossible
  · refine .inl ((deleted other).mpr ?_)
    rcases inv.deletedOr other done with gone | known
    · exact .inl gone
    · have finishing : state.control.Finishing other → other = wi := by
        simp [Control.Finishing, here, eq_comm]
      exact .inr (finishing known)
  · cases same
  · cases same

variable {answer : Option ExpStatus}

theorem watch_inv (inv : Inv state)
    (upToDate : UpToDate state (.watch answer)) (stepped : watch answer state = some next) : Inv next := by
  rw [UpToDate] at upToDate
  rw [watch] at stepped
  cases here : state.control with
  | inactive =>
    rw [here] at stepped
    obtain rfl := Option.some.inj stepped
    exact inv.move (by simp [Control.Finishing, here]) (by simp [Control.items]) (by simp) (by simp) (by simp)
  | top =>
    rw [here] at stepped
    obtain rfl := Option.some.inj stepped
    have copied : Inv { state with copy := state.list } :=
      ⟨⟨inv.sound.kept, inv.sound.gone, inv.sound.faultless, inv.sound.asleep⟩, inv.listBound,
        inv.listBound, inv.controlBound, inv.deletedBound, inv.releasedBound, inv.listed,
        inv.deletedOr, inv.purging, inv.deleting⟩
    exact copied.move (by simp [Control.Finishing, here]) inv.listBound (by simp) (by simp) (by simp)
  | scan rest =>
    cases rest with
    | nil =>
      simp only [here] at upToDate stepped
      split at stepped
      · rename_i empty
        obtain rfl := Option.some.inj stepped
        have none := upToDate empty
        have waiting : Inv { state with waitingToWatch := true } :=
          ⟨⟨inv.sound.kept, inv.sound.gone, inv.sound.faultless, fun _ _ => none⟩,
            inv.listBound, inv.copyBound, inv.controlBound, inv.deletedBound,
            inv.releasedBound, inv.listed, inv.deletedOr, inv.purging, inv.deleting⟩
        exact waiting.move (by simp [Control.Finishing, here]) (by simp [Control.items])
          (fun _ => none) (by simp) (by simp)
      · obtain rfl := Option.some.inj stepped
        exact inv.move (by simp [Control.Finishing, here]) (by simp [Control.items]) (by simp)
          (by simp) (by simp)
    | cons wi rest =>
      simp only [here] at upToDate stepped
      obtain rfl := Option.some.inj stepped
      rw [dereference_of_kept upToDate]
      have bound := inv.controlBound
      rw [here] at bound
      exact inv.move (by simp [Control.Finishing, here]) bound (by simp) (by simp) (by simp)
  | status wi rest =>
    simp only [here] at upToDate stepped
    split at stepped
    · obtain rfl := Option.some.inj stepped
      exact release_inv inv here
    · rename_i status known
      split at stepped
      · rename_i ended
        rw [known] at upToDate
        rw [dereference_of_kept (upToDate ended)] at stepped
        obtain rfl := Option.some.inj stepped
        exact release_inv (notify_inv inv wi) ((notify_control wi).trans here)
      · obtain rfl := Option.some.inj stepped
        have bound := inv.controlBound
        rw [here] at bound
        exact inv.move (by simp [Control.Finishing, here])
          (fun other member => bound other (List.mem_cons_of_mem wi member)) (by simp) (by simp)
          (by simp)
  | purge wi rest =>
    simp only [here] at upToDate stepped
    obtain rfl := Option.some.inj stepped
    exact writeBack_inv inv here upToDate.1 upToDate.2
  | delete wi rest =>
    simp only [here] at upToDate stepped
    obtain rfl := Option.some.inj stepped
    rw [dereference_of_kept upToDate]
    exact delete_inv inv here _
  | asleep =>
    rw [here] at stepped
    obtain rfl := Option.some.inj stepped
    exact inv.move (by simp [Control.Finishing, here]) (by simp [Control.items]) (by simp) (by simp) (by simp)
  | exited =>
    rw [here] at stepped
    cases stepped

theorem watch_broken (inv : Inv state) (stale : ¬ UpToDate state (.watch answer)) :
    ∃ next, watch answer state = some next ∧ ¬ Sound next := by
  rw [UpToDate] at stale
  cases here : state.control with
  | scan rest =>
    cases rest with
    | nil =>
      simp only [here, Classical.not_imp] at stale
      refine ⟨_, by rw [watch, here]; exact if_pos stale.1, fun sound => ?_⟩
      exact stale.2 (sound.asleep rfl rfl)
    | cons wi rest =>
      simp only [here, not_not] at stale
      refine ⟨_, by rw [watch, here], fun sound => ?_⟩
      exact dereference_faults stale sound.faultless
  | status wi rest =>
    simp only [here, Classical.not_imp, not_not] at stale
    cases known : state.found wi answer with
    | none => simp [known] at stale
    | some status =>
      have ended : status.ended = true := by simpa [known] using stale.1
      refine ⟨_, by rw [watch, here]; simp only [known, ended, if_true]; rfl, fun sound => ?_⟩
      exact dereference_faults stale.2 ((notify_faults wi).symm.trans sound.faultless)
  | purge wi rest =>
    simp only [here] at stale
    refine ⟨_, by rw [watch, here], fun sound => stale ⟨fun other member apart => ?_,
      fun other copied apart gone => ?_⟩⟩
    · have unreleased : other ∉ state.released := by
        intro done
        obtain ⟨_, same⟩ := inv.listed other member done
        rw [here] at same
        cases same
        exact apart rfl
      exact (List.mem_filter.mp (sound.kept other (inv.listBound other member) unreleased)).1
    · refine sound.gone other gone (List.mem_filter.mpr ⟨copied, ?_⟩)
      simpa using apart
  | delete wi rest =>
    simp only [here, not_not] at stale
    refine ⟨_, by rw [watch, here], fun sound => ?_⟩
    exact dereference_faults stale sound.faultless
  | inactive => simp [here] at stale
  | top => simp [here] at stale
  | asleep => simp [here] at stale
  | exited => simp [here] at stale

end

theorem step_inv (state : State) (input : Input) (next : State) (inv : Inv state)
    (upToDate : UpToDate state input) (stepped : step state input = some next) : Inv next := by
  cases input with
  | watch answer => exact watch_inv inv upToDate stepped
  | cancleAsyncNotice exp => exact Option.some.inj stepped ▸ cancleAsyncNotice_inv inv exp
  | requestAsyncNoticeOfTermination clip exp =>
    exact Option.some.inj stepped ▸ requestAsyncNoticeOfTermination_inv inv clip exp
  | postNotice request => exact postNotice_inv inv stepped
  | cancleExpWait exp => exact Option.some.inj stepped ▸ cancleExpWait_inv inv exp
  | waitForExp exp => exact Option.some.inj stepped ▸ waitForExp_inv inv exp
  | purgeWatcherEvents => exact Option.some.inj stepped ▸ purgeWatcherEvents_inv inv
  | purgeWatcherWaits => exact Option.some.inj stepped ▸ purgeWatcherWaits_inv inv
  | catchTLISignal => exact catchTLISignal_inv inv stepped

theorem step_broken (state : State) (input : Input) (inv : Inv state)
    (stale : ¬ UpToDate state input) : ∃ next, step state input = some next ∧ ¬ Sound next := by
  cases input with
  | watch answer => exact watch_broken inv stale
  | _ => exact absurd trivial stale

theorem requests_kept (inputs : List Input) :
    Runs.Always Sound step initial inputs ↔ Runs.Along UpToDate step initial inputs :=
  Runs.always_iff_along Inv (fun _ inv => inv.sound) step_inv step_broken initial_inv

def postedBeforeSleep : List Input := [.watch none, .watch none, .waitForExp (some 1), .watch none]

theorem postedBeforeSleep_lost : ¬ Runs.Always Sound step initial postedBeforeSleep := by
  intro always
  obtain ⟨final, ran⟩ : ∃ final, Runs.run step initial postedBeforeSleep = some final :=
    ⟨_, rfl⟩
  have sound : Sound final := @Runs.Always.of_run _ _ Sound step postedBeforeSleep [] initial final always ran
  obtain rfl := Option.some.inj ran
  exact absurd (sound.asleep rfl rfl) (by decide)

end OpenSpeedShop.Watcher
