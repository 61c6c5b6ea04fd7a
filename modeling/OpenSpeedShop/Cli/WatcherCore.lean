import OpenSpeedShop.Library.Runs

/-!
The thread that watches for the end of experiments, and the calls that post, cancel and purge its items.
A step is a section under the lock, or what the watcher does between two.
-/

namespace OpenSpeedShop.Watcher

abbrev EXPID := Nat

abbrev CMDWID := Nat

inductive WatchItem
  | printTermination (window : CMDWID) (expid : EXPID)
  | waitTermination (expid : EXPID)
  deriving DecidableEq

def WatchItem.expid : WatchItem → EXPID
  | printTermination _ expid => expid
  | waitTermination expid => expid

def WatchItem.isPrint : WatchItem → Bool
  | printTermination _ _ => true
  | waitTermination _ => false

def WatchItem.isWait (item : WatchItem) : Bool := !item.isPrint

inductive ExpStatus
  | nonExistent | paused | running | terminated | inError
  deriving DecidableEq

def ExpStatus.ended : ExpStatus → Bool
  | nonExistent | paused | terminated | inError => true
  | running => false

/-- Where the watcher is in its loop. Items are numbered in the order in which they
are constructed. -/
inductive Control
  | inactive
  | top
  | scan (rest : List Nat)
  | status (wi : Nat) (rest : List Nat)
  | purge (wi : Nat) (rest : List Nat)
  | delete (wi : Nat) (rest : List Nat)
  | asleep
  | exited
  deriving DecidableEq

/-- The last three fields are the history: the deleted items, those cancelled, purged or seen as ended,
and those that the watcher used after they were deleted. -/
structure State where
  items : List WatchItem
  list : List Nat
  waitingToWatch : Bool
  control : Control
  copy : List Nat
  requests : List WatchItem
  waiters : List Nat
  messages : List (CMDWID × EXPID)
  deleted : List Nat
  released : List Nat
  faults : List Nat
  deriving DecidableEq

def initial : State := ⟨[], [], false, .inactive, [], [], [], [], [], [], []⟩

def State.watcherActive (state : State) : Bool := state.control ≠ .inactive

def State.isItem (state : State) (matching : WatchItem → Bool) (wi : Nat) : Bool :=
  state.items[wi]?.any matching

/-- The loop over the list that removes and deletes the matching items. A deleted item
wakes up its waiter. -/
def State.removeAll (state : State) (matching : WatchItem → Bool) : State :=
  let found := state.list.filter (state.isItem matching)
  { state with
    list := state.list.filter fun wi => !state.isItem matching wi
    waiters := state.waiters.filter fun wi => wi ∉ found
    deleted := state.deleted ++ found
    released := state.released ++ found }

def cancleAsyncNotice (exp : Option EXPID) (state : State) : State :=
  let id := exp.getD 0
  if !state.watcherActive || id = 0 then state
  else state.removeAll fun item => item.isPrint && item.expid = id

def cancleExpWait (exp : Option EXPID) (state : State) : State :=
  let id := exp.getD 0
  if !state.watcherActive || id = 0 then state
  else state.removeAll fun item => item.isWait && item.expid = id

def purgeWatcherEvents (state : State) : State :=
  if !state.watcherActive then state else state.removeAll fun _ => true

def purgeWatcherWaits (state : State) : State :=
  if !state.watcherActive then state else state.removeAll WatchItem.isWait

def State.post (state : State) (item : WatchItem) : State :=
  { state with
    items := state.items ++ [item]
    list := state.list ++ [state.items.length]
    waitingToWatch := false }

def requestAsyncNoticeOfTermination (clip : Option CMDWID) (exp : Option EXPID) (state : State) :
    State :=
  if !state.watcherActive then state
  else match exp, clip.getD 0 with
    | some expid, window + 1 =>
      let state := cancleAsyncNotice (some expid) state
      { state with requests := state.requests ++ [.printTermination (window + 1) expid] }
    | _, _ => state

def postNotice (request : Nat) (state : State) : Option State := do
  let item ← state.requests[request]?
  return State.post { state with requests := state.requests.eraseIdx request } item

def waitForExp (exp : Option EXPID) (state : State) : State :=
  match exp with
  | none => state
  | some expid =>
    if !state.watcherActive then state
    else State.post { state with waiters := state.waiters ++ [state.items.length] } (.waitTermination expid)

def State.dereference (state : State) (wi : Nat) : State :=
  if wi ∈ state.deleted then { state with faults := state.faults ++ [wi] } else state

def State.notify (state : State) (wi : Nat) : State :=
  match state.items[wi]? with
  | some (.printTermination window expid) =>
    { state with messages := state.messages ++ [(window, expid)] }
  | some (.waitTermination _) => { state with waiters := state.waiters.filter (· ≠ wi) }
  | none => state

def State.found (state : State) (wi : Nat) (answer : Option ExpStatus) : Option ExpStatus :=
  if state.isItem (fun item => item.expid ≠ 0) wi then answer else none

def watch (answer : Option ExpStatus) (state : State) : Option State :=
  match state.control with
  | .inactive => some { state with control := .top }
  | .top => some { state with copy := state.list, control := .scan state.list }
  | .scan (wi :: rest) => some { state.dereference wi with control := .status wi rest }
  | .status wi rest =>
    match state.found wi answer with
    | none => some { state with
        released := state.released ++ [wi], control := .purge wi rest }
    | some status =>
      if status.ended then
        let state := (state.dereference wi).notify wi
        some { state with released := state.released ++ [wi], control := .purge wi rest }
      else some { state with control := .scan rest }
  | .purge wi rest =>
    let copy := state.copy.filter (· ≠ wi)
    some { state with copy := copy, list := copy, control := .delete wi rest }
  | .delete wi rest =>
    let state := state.dereference wi
    some { state with
      waiters := state.waiters.filter (· ≠ wi)
      deleted := state.deleted ++ [wi]
      control := .scan rest }
  | .scan [] =>
    if state.copy = [] then some { state with waitingToWatch := true, control := .asleep }
    else some { state with control := .top }
  | .asleep => some { state with control := .top }
  | .exited => none

def catchTLISignal (state : State) : Option State :=
  if !state.watcherActive || state.control = .exited then none
  else some { purgeWatcherEvents state with control := .exited }

inductive Input
  | watch (answer : Option ExpStatus)
  | cancleAsyncNotice (exp : Option EXPID)
  | requestAsyncNoticeOfTermination (clip : Option CMDWID) (exp : Option EXPID)
  | postNotice (request : Nat)
  | cancleExpWait (exp : Option EXPID)
  | waitForExp (exp : Option EXPID)
  | purgeWatcherEvents
  | purgeWatcherWaits
  | catchTLISignal
  deriving DecidableEq

def step (state : State) : Input → Option State
  | .watch answer => Watcher.watch answer state
  | .cancleAsyncNotice exp => some (Watcher.cancleAsyncNotice exp state)
  | .requestAsyncNoticeOfTermination clip exp =>
    some (Watcher.requestAsyncNoticeOfTermination clip exp state)
  | .postNotice request => Watcher.postNotice request state
  | .cancleExpWait exp => some (Watcher.cancleExpWait exp state)
  | .waitForExp exp => some (Watcher.waitForExp exp state)
  | .purgeWatcherEvents => some (Watcher.purgeWatcherEvents state)
  | .purgeWatcherWaits => some (Watcher.purgeWatcherWaits state)
  | .catchTLISignal => Watcher.catchTLISignal state

end OpenSpeedShop.Watcher
