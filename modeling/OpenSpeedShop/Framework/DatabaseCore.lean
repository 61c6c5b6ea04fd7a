import OpenSpeedShop.Library.Procedure
import OpenSpeedShop.Library.Runs

/-!
The per-thread handle of a database: a stack of prepared statements with a null entry where each nested
transaction begins, a cache of statements, and the flag that lets the outermost transaction commit. What
SQLite replies is part of a call; a reply on which the source asserts aborts.
-/

namespace OpenSpeedShop

inductive TransactionCommand
  | beginExclusive
  | beginDeferred
  | commit
  | rollback
deriving DecidableEq

/-- SQLite as a handle sees it. `working` is what the open transaction reads and
writes; statement objects are numbered in the order they are allocated. -/
structure Sqlite (Contents : Type) where
  committed : Contents
  working : Contents
  allocated : Nat
  issued : List TransactionCommand

inductive DatabaseException
  | databaseInvalid (name message : String)
  | databaseReadOnly (name : String)
  | databaseBusy (name : String)
deriving DecidableEq

structure Handle (Contents : Type) where
  dmName : String
  dmDatabase : Sqlite Contents
  dmCache : List (String × Nat)
  dmTransaction : List (Option Nat)
  dmIsCommittable : Bool

inductive BeginReply
  | ok
  | readOnlyThenOk
  | other
deriving DecidableEq

inductive PrepareReply
  | ok
  | syntaxError
  | invalid (message : String)
  | other
deriving DecidableEq

inductive ResetReply
  | ok
  | readOnly
  | other
deriving DecidableEq

inductive StepReply
  | row
  | done (reset : ResetReply)
  | readOnly
  | error
  | busy
  | other
deriving DecidableEq

/-- The replies to the end of a transaction: one for each statement that is
reset, and whether the final command succeeds. -/
structure EndReply where
  reset : Nat → ResetReply
  executed : Bool

namespace Database

variable {Contents : Type}

abbrev Act (Contents Value : Type) := Procedure (Handle Contents) DatabaseException Value

def opened (name : String) (contents : Contents) : Handle Contents :=
  { dmName := name
    dmDatabase := ⟨contents, contents, 0, []⟩
    dmCache := []
    dmTransaction := []
    dmIsCommittable := false }

def issue (command : TransactionCommand) (handle : Handle Contents) : Handle Contents :=
  let sqlite := handle.dmDatabase
  let issued := sqlite.issued ++ [command]
  { handle with
    dmDatabase :=
      match command with
      | .beginExclusive | .beginDeferred =>
        { sqlite with working := sqlite.committed, issued := issued }
      | .commit => { sqlite with committed := sqlite.working, issued := issued }
      | .rollback => { sqlite with working := sqlite.committed, issued := issued } }

def beginTransaction (willModify : Bool) (reply : BeginReply) : Act Contents Unit := fun handle =>
  let begun : Option (Handle Contents) :=
    if handle.dmTransaction.isEmpty then
      match reply with
      | .ok =>
        some { issue (if willModify then .beginExclusive else .beginDeferred) handle with
          dmIsCommittable := true }
      | .readOnlyThenOk =>
        if willModify then some { issue .beginDeferred handle with dmIsCommittable := true }
        else none
      | .other => none
    else
      some handle
  match begun with
  | some handle => .returned () { handle with dmTransaction := none :: handle.dmTransaction }
  | none => .aborted

def findUnused (handle : Handle Contents) (statement : String) : Option Nat :=
  ((handle.dmCache.filter fun entry => entry.1 == statement).map Prod.snd).find? fun stmt =>
    !handle.dmTransaction.contains (some stmt)

def prepareStatement (statement : String) (reply : PrepareReply) : Act Contents Unit :=
  fun handle =>
    if handle.dmTransaction.isEmpty then
      .aborted
    else
      match findUnused handle statement with
      | some stmt =>
        .returned () { handle with dmTransaction := some stmt :: handle.dmTransaction }
      | none =>
        match reply with
        | .ok =>
          let stmt := handle.dmDatabase.allocated
          .returned () { handle with
            dmDatabase := { handle.dmDatabase with allocated := stmt + 1 }
            dmCache := handle.dmCache ++ [(statement, stmt)]
            dmTransaction := some stmt :: handle.dmTransaction }
        | .invalid message => .thrown (.databaseInvalid handle.dmName message) handle
        | .syntaxError | .other => .aborted

def executeStatement (effect : Contents → Contents) (reply : StepReply) : Act Contents Bool :=
  fun handle =>
    match handle.dmTransaction with
    | some _ :: below =>
      let stepped := { handle with
        dmDatabase := { handle.dmDatabase with working := effect handle.dmDatabase.working } }
      match reply with
      | .row => .returned true stepped
      | .done .ok => .returned false { stepped with dmTransaction := below }
      | .done _ => .aborted
      | .readOnly | .error => .thrown (.databaseReadOnly handle.dmName) handle
      | .busy => .thrown (.databaseBusy handle.dmName) handle
      | .other => .aborted
    | _ => .aborted

/-- The loop that resets and pops the statements of the innermost transaction,
and then pops the null entry that marks its beginning. -/
def popTransaction (reply : EndReply) : List (Option Nat) → Option (List (Option Nat))
  | [] => none
  | none :: below => some below
  | some stmt :: below =>
    match reply.reset stmt with
    | .ok | .readOnly => popTransaction reply below
    | .other => none

def commitTransaction (reply : EndReply) : Act Contents Unit := fun handle =>
  match popTransaction reply handle.dmTransaction with
  | none => .aborted
  | some below =>
    let handle := { handle with dmTransaction := below }
    if below.isEmpty then
      if reply.executed then
        .returned () (issue (if handle.dmIsCommittable then .commit else .rollback) handle)
      else .aborted
    else .returned () handle

def rollbackTransaction (reply : EndReply) : Act Contents Unit := fun handle =>
  match popTransaction reply handle.dmTransaction with
  | none => .aborted
  | some below =>
    let handle := { handle with dmTransaction := below }
    if below.isEmpty then
      if reply.executed then .returned () (issue .rollback handle) else .aborted
    else .returned () { handle with dmIsCommittable := false }

inductive Call (Contents : Type)
  | beginTransaction (willModify : Bool) (reply : BeginReply)
  | prepareStatement (statement : String) (reply : PrepareReply)
  | executeStatement (effect : Contents → Contents) (reply : StepReply)
  | commitTransaction (reply : EndReply)
  | rollbackTransaction (reply : EndReply)

def Call.step (handle : Handle Contents) : Call Contents → Option (Handle Contents)
  | .beginTransaction willModify reply => (Database.beginTransaction willModify reply handle).state?
  | .prepareStatement statement reply => (Database.prepareStatement statement reply handle).state?
  | .executeStatement effect reply => (Database.executeStatement effect reply handle).state?
  | .commitTransaction reply => (Database.commitTransaction reply handle).state?
  | .rollbackTransaction reply => (Database.rollbackTransaction reply handle).state?

/-- The call sequences that the transaction macros produce: every level that is
begun is ended by a commit, or by a rollback when an exception crosses it. -/
inductive WellNested : List (Call Contents) → Prop
  | nil : WellNested []
  | prepareStatement (statement reply) {rest} : WellNested rest →
      WellNested (.prepareStatement statement reply :: rest)
  | executeStatement (effect reply) {rest} : WellNested rest →
      WellNested (.executeStatement effect reply :: rest)
  | committed (willModify begun ended) {inner rest} : WellNested inner → WellNested rest →
      WellNested (.beginTransaction willModify begun :: inner ++ .commitTransaction ended :: rest)
  | rolledBack (willModify begun ended) {inner rest} : WellNested inner → WellNested rest →
      WellNested (.beginTransaction willModify begun :: inner ++ .rollbackTransaction ended :: rest)

def Call.isRollback : Call Contents → Bool
  | .rollbackTransaction _ => true
  | _ => false

end Database

structure Access (State Contents : Type) where
  read : State → Handle Contents
  write : State → Handle Contents → State
  read_write : ∀ state handle, read (write state handle) = handle
  write_write : ∀ state first second, write (write state first) second = write state second
  write_read : ∀ state, write state (read state) = state

structure MacroReply where
  begun : BeginReply
  ended : EndReply
  rolledBack : EndReply

inductive StepFailure
  | readOnly
  | error
  | busy
  | other
deriving DecidableEq

def StepFailure.reply : StepFailure → StepReply
  | .readOnly => .readOnly
  | .error => .error
  | .busy => .busy
  | .other => .other

/-- The replies met by one prepared statement: `failure` is the step that fails,
counted by the rows delivered before it. -/
structure QueryReply where
  prepared : PrepareReply
  failure : Option (Nat × StepFailure)
  reset : ResetReply

def QueryReply.failureAt (reply : QueryReply) (delivered : Nat) : Option StepFailure :=
  match reply.failure with
  | some (index, failure) => if index = delivered then some failure else none
  | none => none

namespace Access

open Database

variable {State Contents Value Row : Type}

def call (database : Access State Contents) (act : Act Contents Value) :
    Procedure State DatabaseException Value :=
  Procedure.within database.read database.write act

/-- `BEGIN_TRANSACTION(db); body END_TRANSACTION(db);` -/
def transaction (database : Access State Contents) (willModify : Bool) (reply : MacroReply)
    (body : Procedure State DatabaseException Value) : Procedure State DatabaseException Value :=
  Procedure.onException (do
      database.call (beginTransaction willModify reply.begun)
      let value ← body
      database.call (commitTransaction reply.ended)
      return value)
    (database.call (rollbackTransaction reply.rolledBack))

/-- `while(db->executeStatement()) body;` on a statement that selects `rows`. -/
def executeRows (database : Access State Contents) (reply : QueryReply)
    (body : Value → Row → Procedure State DatabaseException Value) :
    (rows : List Row) → (delivered : Nat) → Value → Procedure State DatabaseException Value
  | rows, delivered, value =>
    match reply.failureAt delivered with
    | some failure => do
        let _ ← database.call (executeStatement id failure.reply)
        return value
    | none =>
      match rows with
      | [] => do
          let _ ← database.call (executeStatement id (.done reply.reset))
          return value
      | row :: rest => do
          let _ ← database.call (executeStatement id .row)
          let value ← body value row
          executeRows database reply body rest (delivered + 1) value

def query (database : Access State Contents) (statement : String)
    (select : Contents → List Row) (reply : QueryReply) (value : Value)
    (body : Value → Row → Procedure State DatabaseException Value) :
    Procedure State DatabaseException Value := do
  database.call (prepareStatement statement reply.prepared)
  let state ← Procedure.get
  executeRows database reply body (select (database.read state).dmDatabase.working) 0 value

/-- `while(db->executeStatement()) value = db->getResult...;` -/
def queryLast (database : Access State Contents) (statement : String)
    (select : Contents → List Value) (reply : QueryReply) (value : Value) :
    Procedure State DatabaseException Value :=
  database.query statement select reply value fun _ row => return row

/-- `while(db->executeStatement());` on a statement that changes the contents. -/
def command (database : Access State Contents) (statement : String)
    (effect : Contents → Contents) (reply : QueryReply) :
    Procedure State DatabaseException Unit := do
  database.call (prepareStatement statement reply.prepared)
  match reply.failureAt 0 with
  | some failure =>
    let _ ← database.call (executeStatement id failure.reply)
  | none =>
    let _ ← database.call (executeStatement effect (.done reply.reset))

end Access

end OpenSpeedShop
