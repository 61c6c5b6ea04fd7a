import OpenSpeedShop.Framework.DatabaseCore
import OpenSpeedShop.Framework.ExtentTable
import OpenSpeedShop.Library.OffsetBinary

/-!
Storing performance data and the cache of its identifiers. A blob is given by
its header, where the contents can be decoded at all, and the bytes after it.
-/

namespace OpenSpeedShop

structure DataHeader where
  experiment : Int
  collector : Int
  host : String
  pid : Int64
  posixTid : Int64
  timeBegin : UInt64
  timeEnd : UInt64
  addrBegin : UInt64
  addrEnd : UInt64
deriving DecidableEq

structure Blob where
  header : Option DataHeader
  data : List UInt8
deriving DecidableEq

structure ThreadRow where
  id : Int
  host : String
  pid : Int32
  posixTid : Option Int64
deriving DecidableEq

structure DataRow where
  id : Int
  collector : Int
  thread : Int
  timeBegin : Int64
  timeEnd : Int64
  addrBegin : Int64
  addrEnd : Int64
  data : List UInt8
deriving DecidableEq

/-- The tables that storing performance data reads and writes. `stored` is in no
table: it records the blobs that a store has run to its end for. -/
structure Tables where
  collectors : List Int
  threads : List ThreadRow
  data : List DataRow
  lastInsertRowid : Int
  stored : List Blob
deriving DecidableEq

/-- What `static_cast<int>` and `sqlite3_column_int` leave of a row number. -/
def toInteger (value : Int) : Int := value.bmod (2 ^ 32)

namespace Tables

def nextRowid (tables : Tables) : Int :=
  match (tables.data.map DataRow.id).max? with
  | some highest => highest + 1
  | none => 1

def insertData (row : Int → DataRow) (tables : Tables) : Tables :=
  { tables with
    data := tables.data ++ [row tables.nextRowid]
    lastInsertRowid := tables.nextRowid }

def record (tables : Tables) (blob : Blob) : Tables :=
  { tables with stored := tables.stored ++ [blob] }

def dataOf (collector thread : Int) (tables : Tables) : List DataRow :=
  tables.data.filter fun row => row.collector = collector && row.thread = thread

def threadsOf (host : String) (pid : Int32) (posixTid : Option Int64) (tables : Tables) : List Int :=
  (tables.threads.filter fun row =>
    row.host = host && row.pid = pid && row.posixTid = posixTid).map ThreadRow.id

end Tables

def makeExtent? (timeBegin timeEnd addrBegin addrEnd : UInt64) : Option Extent := do
  let interval ← Interval.make? timeBegin timeEnd
  let range ← Interval.make? addrBegin addrEnd
  some ⟨interval, range⟩

def DataRow.extent? (row : DataRow) : Option Extent :=
  makeExtent? (OffsetBinary.decode row.timeBegin) (OffsetBinary.decode row.timeEnd)
    (OffsetBinary.decode row.addrBegin) (OffsetBinary.decode row.addrEnd)

abbrev CacheTable := ExtentTable (Entry × Entry) Int

structure Store where
  handles : DatabasePtr → Handle Tables
  theCache : CacheTable

namespace Store

def access (database : DatabasePtr) : Access Store Tables where
  read store := store.handles database
  write store handle := { store with handles := Function.update store.handles database handle }
  read_write _ _ := Function.update_self _ _ _
  write_write _ _ _ := by simp
  write_read _ := by simp

end Store

structure FillReply where
  transaction : MacroReply
  query : QueryReply

structure StoreReply where
  transaction : MacroReply
  collector : QueryReply
  canonicalName : String
  thread : QueryReply
  threadWithoutTid : QueryReply
  threadWithZeroTid : QueryReply
  insert : QueryReply
  fill : FillReply

namespace DataCache

abbrev Act (Value : Type) := Procedure Store DatabaseException Value

def addExtent (key : Entry × Entry) (identifier : Int) (extent : Extent) : Act Unit :=
  Procedure.modify fun store =>
    { store with theCache := store.theCache.addExtent key identifier extent }

def addRow (key : Entry × Entry) (row : DataRow) : Act Unit :=
  match row.extent? with
  | none => Procedure.abort
  | some extent => addExtent key (toInteger row.id) extent

def addIdentifiers (key : Entry × Entry) (reply : FillReply) : Act Unit := do
  Procedure.assert (key.1.dmDatabase = key.2.dmDatabase)
  (Store.access key.1.dmDatabase).transaction false reply.transaction
    ((Store.access key.1.dmDatabase).query
      "SELECT ROWID,        time_begin, time_end,        addr_begin, addr_end FROM Data WHERE collector = ? AND thread = ?;"
      (Tables.dataOf key.1.dmEntry key.2.dmEntry) reply.query () fun _ row => addRow key row)

def addIdentifiersIfEmpty (key : Entry × Entry) (reply : FillReply) : Act Unit := do
  let store ← Procedure.get
  if (store.theCache.getExtents key).extents.isEmpty then addIdentifiers key reply else return ()

def dataKey (database : DatabasePtr) (collector thread : Int) : Entry × Entry :=
  (⟨database, collector⟩, ⟨database, thread⟩)

def addIdentifier (database : DatabasePtr) (collector thread : Int) (extent : Extent)
    (identifier : Int) (reply : FillReply) : Act Unit := do
  let key := dataKey database collector thread
  addIdentifiersIfEmpty key reply
  addExtent key identifier extent

def objectsAt (store : Store) (key : Entry × Entry) (intersection : Finset Nat) : Option (Finset Int) :=
  if ∀ index ∈ intersection, (store.theCache.getObject key index).isSome then
    some (intersection.image fun index => (store.theCache.getObject key index).getD 0)
  else none

def intersecting (nthElement : NthElement) (key : Entry × Entry) (extent : Extent) :
    Act (Finset Int) := fun store =>
  let cached := store.theCache.getExtents key
  match cached.getIntersectionWith nthElement (2 * cached.extents.length) extent with
  | none => .aborted
  | some (intersection, cached) =>
    match objectsAt store key intersection with
    | none => .aborted
    | some identifiers =>
      .returned identifiers { store with theCache := store.theCache.setExtents key cached }

def getIdentifiers (nthElement : NthElement) (collector thread : Entry) (extent : Extent)
    (reply : FillReply) : Act (Finset Int) := do
  addIdentifiersIfEmpty (collector, thread) reply
  intersecting nthElement (collector, thread) extent

end DataCache

namespace DataQueues

open DataCache (Act addIdentifier)

def dataRow (header : DataHeader) (thread : Int) (data : List UInt8) (id : Int) : DataRow where
  id := id
  collector := header.collector
  thread := thread
  timeBegin := OffsetBinary.encode header.timeBegin
  timeEnd := OffsetBinary.encode header.timeEnd
  addrBegin := OffsetBinary.encode header.addrBegin
  addrEnd := OffsetBinary.encode header.addrEnd
  data := data

/-- `if(thread == 0) { thread = search; }` -/
def searchIfZero (thread : Int) (search : Act Int) : Act Int :=
  if thread = 0 then search else return thread

def findThread (database : DatabasePtr) (header : DataHeader) (reply : StoreReply) : Act Int := do
  let host := reply.canonicalName
  let pid := header.pid.toInt32
  let thread ← (Store.access database).queryLast
    "SELECT id FROM Threads WHERE host = ?   AND pid = ?   AND posix_tid = ?;"
    (Tables.threadsOf host pid (some (OffsetBinary.encode header.posixTid.toUInt64)))
    reply.thread 0
  let thread ← searchIfZero thread ((Store.access database).queryLast
    "SELECT id FROM Threads WHERE host = ?   AND pid = ?   AND posix_tid IS NULL;"
    (Tables.threadsOf host pid none) reply.threadWithoutTid 0)
  searchIfZero thread ((Store.access database).queryLast
    "SELECT id FROM Threads WHERE host = ?   AND pid = ?   AND posix_tid = ?;"
    (Tables.threadsOf host pid (some (OffsetBinary.encode 0))) reply.threadWithZeroTid 0)

def insertPerformanceData (database : DatabasePtr) (header : DataHeader) (thread : Int)
    (data : List UInt8) (reply : StoreReply) : Act Unit := do
  (Store.access database).command
    "INSERT INTO Data (collector, thread, time_begin, time_end,   addr_begin, addr_end, data) VALUES (?, ?, ?, ?, ?, ?, ?);"
    (Tables.insertData (dataRow header thread data)) reply.insert
  let store ← Procedure.get
  let lastInsertedUID := toInteger (store.handles database).dmDatabase.working.lastInsertRowid
  match makeExtent? header.timeBegin header.timeEnd header.addrBegin header.addrEnd with
  | none => Procedure.abort
  | some extent =>
    addIdentifier database header.collector thread extent lastInsertedUID reply.fill

def recordStored (database : DatabasePtr) (blob : Blob) : Act Unit :=
  (Store.access database).call (Procedure.modify fun handle =>
    { handle with dmDatabase := { handle.dmDatabase with
        working := handle.dmDatabase.working.record blob } })

def storePerformanceData (database : DatabasePtr) (blob : Blob) (reply : StoreReply) : Act Unit :=
  (Store.access database).transaction true reply.transaction
    (match blob.header with
    | none => Procedure.abort
    | some header => do
        let invalid := header.addrBegin ≥ header.addrEnd || header.timeBegin ≥ header.timeEnd
        let collectorRows ← (Store.access database).queryLast
          "SELECT COUNT(*) FROM Collectors WHERE id = ?;"
          (fun tables => [tables.collectors.count header.collector]) reply.collector 0
        let thread ← findThread database header reply
        let ignoreData := invalid || collectorRows != 1 || thread == 0
        if !ignoreData then
          insertPerformanceData database header thread blob.data reply
        recordStored database blob)

end DataQueues

namespace DataCache

/-- The calls that store data and query the cache. Blobs are only stored inside
the transactions that the data queues begin. -/
inductive Call
  | beginTransaction (database : DatabasePtr) (willModify : Bool) (reply : BeginReply)
  | commitTransaction (database : DatabasePtr) (reply : EndReply)
  | rollbackTransaction (database : DatabasePtr) (reply : EndReply)
  | storePerformanceData (database : DatabasePtr) (blob : Blob) (reply : StoreReply)
  | getIdentifiers (collector thread : Entry) (extent : Extent) (reply : FillReply)

def Call.step (nthElement : NthElement) (store : Store) : Call → Option Store
  | .beginTransaction database willModify reply =>
    ((Store.access database).call (Database.beginTransaction willModify reply) store).state?
  | .commitTransaction database reply =>
    ((Store.access database).call (Database.commitTransaction reply) store).state?
  | .rollbackTransaction database reply =>
    ((Store.access database).call (Database.rollbackTransaction reply) store).state?
  | .storePerformanceData database blob reply =>
    if (store.handles database).dmTransaction.isEmpty then none
    else (DataQueues.storePerformanceData database blob reply store).state?
  | .getIdentifiers collector thread extent reply =>
    (DataCache.getIdentifiers nthElement collector thread extent reply store).state?

end DataCache

def Store.opened (name : DatabasePtr → String) (contents : DatabasePtr → Tables) : Store where
  handles database := Database.opened (name database) (contents database)
  theCache := ExtentTable.empty

end OpenSpeedShop
