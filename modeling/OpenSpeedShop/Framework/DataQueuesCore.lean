import OpenSpeedShop.Framework.DataCacheCore
import Mathlib.Tactic.Linarith

/-!
The data queues of the tool process. Each call holds the exclusive access lock
from its beginning to its end, so the calls of all threads come one after
another.
-/

namespace OpenSpeedShop

/-- `handed` records the calls of `storePerformanceData`. -/
structure Process where
  store : Store
  nextIdentifier : Int
  databaseToIdentifier : Std.TreeMap DatabasePtr Int
  identifierToDatabase : Std.TreeMap Int DatabasePtr
  identifierToQueue : Std.TreeMap Int (List Blob)
  handed : List (DatabasePtr × Blob)

/-- The replies met by the flush of one queue: those of its transaction, and
those of the store of each blob. -/
structure FlushReply where
  transaction : MacroReply
  store : Nat → StoreReply

namespace Process

def access (database : DatabasePtr) : Access Process Tables where
  read process := process.store.handles database
  write process handle :=
    { process with store := (Store.access database).write process.store handle }
  read_write _ _ := Function.update_self _ _ _
  write_write _ _ _ := by simp [Store.access]
  write_read _ := by simp [Store.access]

def initial (store : Store) : Process where
  store := store
  nextIdentifier := 0
  databaseToIdentifier := ∅
  identifierToDatabase := ∅
  identifierToQueue := ∅
  handed := []

end Process

namespace DataQueues

abbrev Act (Value : Type) := Procedure Process DatabaseException Value

def onStore {Value : Type} (act : DataCache.Act Value) : Act Value :=
  Procedure.within Process.store (fun process store => { process with store := store }) act

def addDatabase (database : DatabasePtr) : Act Unit := do
  Procedure.assert (database ≠ 0)
  let process ← Procedure.get
  Procedure.assert (process.databaseToIdentifier[database]?).isNone
  let identifier := process.nextIdentifier
  -- Incrementing the highest integer is undefined.
  Procedure.assert (identifier < 2 ^ 31 - 1)
  Procedure.modify fun process =>
    { process with
      nextIdentifier := identifier + 1
      databaseToIdentifier := process.databaseToIdentifier.insert database identifier
      identifierToDatabase := process.identifierToDatabase.insert identifier database
      identifierToQueue := process.identifierToQueue.insert identifier [] }

def getDatabase (identifier : Int) (process : Process) : DatabasePtr :=
  (process.identifierToDatabase[identifier]?).getD 0

def getDatabaseIdentifier (database : DatabasePtr) (process : Process) : Int :=
  (process.databaseToIdentifier[database]?).getD (-1)

def storeFront (database : DatabasePtr) (blob : Blob) (reply : StoreReply) : Act Unit := do
  Procedure.modify fun process => { process with handed := process.handed ++ [(database, blob)] }
  onStore (storePerformanceData database blob reply)

/-- `while(!queue->empty())`: a blob is popped when it has been stored. -/
def storeQueue (database : DatabasePtr) (identifier : Int) (reply : Nat → StoreReply) :
    (queue : List Blob) → (stored : Nat) → Act Unit
  | [], _ => return ()
  | blob :: rest, stored => do
      storeFront database blob (reply stored)
      Procedure.modify fun process =>
        { process with identifierToQueue := process.identifierToQueue.insert identifier rest }
      storeQueue database identifier reply rest (stored + 1)

def flushQueue (database : DatabasePtr) (identifier : Int) (queue : List Blob)
    (reply : FlushReply) : Act Unit :=
  if queue.isEmpty then return ()
  else (Process.access database).transaction true reply.transaction
    (storeQueue database identifier reply.store queue 0)

def flushDatabase (database : DatabasePtr) (reply : FlushReply) : Act Unit := do
  Procedure.assert (database ≠ 0)
  let process ← Procedure.get
  match process.databaseToIdentifier[database]? with
  | none => Procedure.abort
  | some identifier =>
    match process.identifierToQueue[identifier]? with
    | none => Procedure.abort
    | some queue => flushQueue database identifier queue reply

def removeDatabase (database : DatabasePtr) (reply : FlushReply) : Act Unit := do
  Procedure.assert (database ≠ 0)
  let process ← Procedure.get
  Procedure.assert (process.databaseToIdentifier[database]?).isSome
  flushDatabase database reply
  Procedure.modify fun process =>
    let identifier := (process.databaseToIdentifier[database]?).getD 0
    { process with
      databaseToIdentifier := process.databaseToIdentifier.erase database
      identifierToDatabase := process.identifierToDatabase.erase identifier
      identifierToQueue := process.identifierToQueue.erase identifier }

def enqueuePerformanceData (blob : Blob) : Act Unit := do
  match blob.header with
  | none => Procedure.abort
  | some header =>
    Procedure.modify fun process =>
      match process.identifierToQueue[header.experiment]? with
      | none => process
      | some queue =>
        { process with
          identifierToQueue :=
            process.identifierToQueue.insert header.experiment (queue ++ [blob]) }

/-- Flushes the queue of an identifier, if it is not empty. The maximum time of a
flush is never seen to be exceeded: the statement that should note it compares
instead of assigning. -/
def flushIdentifier (identifier : Int) (reply : FlushReply) : Act Unit := do
  let process ← Procedure.get
  match process.identifierToQueue[identifier]?, process.identifierToDatabase[identifier]? with
  | some queue, some database => flushQueue database identifier queue reply
  | some queue, none => Procedure.assert queue.isEmpty
  | none, _ => Procedure.abort

def flushQueues (replies : Int → FlushReply) : (identifiers : List Int) → Act Unit
  | [] => return ()
  | identifier :: rest => do
      flushIdentifier identifier (replies identifier)
      flushQueues replies rest

def flushPerformanceData (replies : Int → FlushReply) : Act Unit := do
  let process ← Procedure.get
  flushQueues replies process.identifierToQueue.keys

inductive Call
  | addDatabase (database : DatabasePtr)
  | removeDatabase (database : DatabasePtr) (reply : FlushReply)
  | enqueuePerformanceData (blob : Blob)
  | flushDatabase (database : DatabasePtr) (reply : FlushReply)
  | flushPerformanceData (replies : Int → FlushReply)

def Call.perform : Call → Act Unit
  | .addDatabase database => DataQueues.addDatabase database
  | .removeDatabase database reply => DataQueues.removeDatabase database reply
  | .enqueuePerformanceData blob => DataQueues.enqueuePerformanceData blob
  | .flushDatabase database reply => DataQueues.flushDatabase database reply
  | .flushPerformanceData replies => DataQueues.flushPerformanceData replies

def Call.step (process : Process) (call : Call) : Option Process :=
  (call.perform process).state?

def Call.stepReturned (process : Process) (call : Call) : Option Process :=
  match call.perform process with
  | .returned _ after => some after
  | _ => none

end DataQueues

end OpenSpeedShop
