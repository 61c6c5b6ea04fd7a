import OpenSpeedShop.Library.PrefixedRecords
import OpenSpeedShop.Library.EntryMap
import OpenSpeedShop.Framework.RawDataFiles
import Mathlib.Algebra.Group.Int.Defs

/-!
The watcher of a daemon, which passes on what the runtime of the monitored processes appends
to its raw data files. Its monitor thread and `watchProcess` scan under one lock, while the
files grow.
-/

namespace OpenSpeedShop

namespace Text

def eraseLast (needle : Text) : Text → Text
  | [] => []
  | char :: rest =>
    if needle <:+: rest then char :: eraseLast needle rest
    else if needle <+: char :: rest then (char :: rest).drop needle.length
    else char :: rest

/-- `substr(rfind(separator) + 1)`, the whole text where there is no separator. -/
def afterLast (separator : Char) (text : Text) : Text :=
  (text.reverse.takeWhile (· ≠ separator)).reverse

def beforeLast (separator : Char) (text : Text) : Option Text :=
  match text.reverse.dropWhile (· ≠ separator) with
  | [] => none
  | _ :: rest => some rest.reverse

def isSpace (char : Char) : Bool := char.toNat = 32 || 9 ≤ char.toNat && char.toNat ≤ 13

def scanNumber (text : Text) : Int :=
  let number (digits : Text) : Int := (Nat.ofDigitChars 10 (digits.takeWhile Char.isDigit) 0 : Nat)
  match text.dropWhile isSpace with
  | '-' :: digits => max (-2 ^ 63) (-number digits)
  | '+' :: digits => min (2 ^ 63 - 1) (number digits)
  | digits => min (2 ^ 63 - 1) (number digits)

end Text

namespace Daemon

namespace Watcher

def dataSuffix : Text := '.' :: OfflineExperiment.dataSuffix

def getTidFromFilename (filename : Text) : UInt64 :=
  UInt64.ofNat ((Text.scanNumber (Text.afterLast '-' (Text.eraseLast dataSuffix filename))) % 2 ^ 64).toNat

def getPidFromFilename (filename : Text) : Option Int :=
  (Text.beforeLast '-' (Text.eraseLast dataSuffix filename)).map fun filename =>
    (Text.scanNumber (Text.afterLast '-' filename)).bmod (2 ^ 32)

def rawDataDir (host : Text) (pid : Nat) : Text :=
  "openss-rawdata-".toList ++ host ++ '-' :: Nat.toDigits 10 pid

structure Dir where
  name : Text
  files : List Text

structure Path where
  dir : Text
  name : Text
deriving DecidableEq

/-- What the runtime sets for a thread; the identifier is zero if there are no POSIX threads. -/
structure DataFile where
  host : Text
  executable : Text
  pid : Nat
  tid : UInt64
deriving DecidableEq

def DataFile.path (file : DataFile) : Path where
  dir := rawDataDir file.host file.pid
  name := file.executable ++ '-' :: Nat.toDigits 10 file.pid ++
    (if file.tid = 0 then [] else '-' :: Nat.toDigits 10 file.tid.toNat) ++ dataSuffix

structure PidAndHost where
  pid : Nat
  positive : 0 < pid
  tid : UInt64
  host : Text

abbrev ProcessThreadId := Nat × UInt64

structure FileInfoEntry where
  readPosition : Nat
  prevSize : Nat
deriving DecidableEq

structure Visit where
  pid : Nat
  tid : UInt64
  dir : Text
  files : List Text

/-- The data file that is read, with its size before it was opened and the working copy of
its entry. -/
structure OpenFile where
  thread : ProcessThreadId
  path : Path
  size : Nat
  entry : FileInfoEntry

/-- What the thread that has the lock does: it goes through the directories, or reads the
size of a blob, or the blob. -/
inductive Scan
  | idle
  | visiting (visits : List Visit)
  | reading (file : OpenFile) (visits : List Visit)
  | sized (file : OpenFile) (blobsize : Nat) (visits : List Visit)
  | crashed

structure State where
  contents : Path → List UInt8
  table : List (ProcessThreadId × FileInfoEntry)
  sent : List (Path × List UInt8)
  scan : Scan

inductive Action
  | append (path : Path) (bytes : List UInt8)
  | start (threads : List PidAndHost)
  | step

def scanForRawPerformanceData (dirs : List Dir) (pid : Nat) (host : Text) (tid : UInt64) : List Visit :=
  (dirs.filter fun dir => rawDataDir host pid <:+: dir.name).map fun dir =>
    ⟨pid, tid, dir.name, dir.files.filter (dataSuffix <:+: ·)⟩

def scans (dirs : List Dir) (threads : List PidAndHost) : List Visit :=
  threads.flatMap fun thread =>
    scanForRawPerformanceData dirs thread.pid thread.host thread.tid ++
      scanForRawPerformanceData dirs thread.pid (thread.host.takeWhile (· ≠ '.')) thread.tid

def Visit.useTid (visit : Visit) (tid : UInt64) : Option UInt64 :=
  if tid ≠ 0 ∧ visit.tid = 0 then some 0
  else if tid ≠ visit.tid then none
  else some tid

namespace State

def start : State := ⟨fun _ => [], [], [], .idle⟩

/-- The entry is added if there is none. Nothing more is looked at in the directory if the
file has the size that it had. -/
def openFile (visit : Visit) (tid : UInt64) (name : Text) (names : List Text)
    (visits : List Visit) (state : State) : State :=
  let thread := (visit.pid, tid)
  let path := ⟨visit.dir, name⟩
  let table :=
    if 0 < visit.pid ∧ (0 < tid ∨ tid = 0 ∧ visit.tid = 0) ∧ EntryMap.lookup thread state.table = none then
      EntryMap.assign thread ⟨0, 0⟩ state.table
    else state.table
  match EntryMap.lookup thread table with
  | none => { state with scan := .crashed }
  | some entry =>
    let size := (state.contents path).length
    if entry.prevSize = size then { state with table := table, scan := .visiting visits }
    else { state with
      table := table
      scan := .reading ⟨thread, path, size, entry⟩ ({ visit with files := names } :: visits) }

def visitNext (visit : Visit) (visits : List Visit) (state : State) : State :=
  match visit.files with
  | [] => { state with scan := .visiting visits }
  | name :: names =>
    match getPidFromFilename name with
    | none => { state with scan := .crashed }
    | some pid =>
      if pid ≠ visit.pid then { state with scan := .visiting visits }
      else
        match visit.useTid (getTidFromFilename name) with
        | none => { state with scan := .visiting ({ visit with files := names } :: visits) }
        | some tid => state.openFile visit tid name names visits

def readSize (file : OpenFile) (visits : List Visit) (state : State) : State :=
  match BigEndianWords.read ((state.contents file.path).drop file.entry.readPosition) with
  | none => { state with scan := .visiting visits }
  | some (blobsize, _) => { state with scan := .sized file blobsize visits }

/-- The allocation is of `blobsize + 4` bytes, which may wrap around; `memset` then writes
behind it. -/
def readBlob (file : OpenFile) (blobsize : Nat) (visits : List Visit) (state : State) : State :=
  let behind := (state.contents file.path).drop (file.entry.readPosition + 4)
  if 2 ^ 32 ≤ blobsize + 4 then { state with scan := .crashed }
  else if blobsize = 0 ∨ behind.length < blobsize then { state with scan := .visiting visits }
  else
    let entry := ⟨file.entry.readPosition + 4 + blobsize, file.size⟩
    { state with
      table := EntryMap.assign file.thread entry state.table
      sent := state.sent ++ [(file.path, behind.take blobsize)]
      scan := .reading { file with entry := entry } visits }

def step (dirs : List Dir) (state : State) : Action → Option State
  | .append path bytes => some { state with
      contents := Function.update state.contents path (state.contents path ++ bytes) }
  | .start threads =>
    match state.scan with
    | .idle => some { state with scan := .visiting (scans dirs threads) }
    | .visiting _ | .reading _ _ | .sized _ _ _ | .crashed => none
  | .step =>
    match state.scan with
    | .idle | .crashed => none
    | .visiting [] => some { state with scan := .idle }
    | .visiting (visit :: visits) => some (state.visitNext visit visits)
    | .reading file visits => some (state.readSize file visits)
    | .sized file blobsize visits => some (state.readBlob file blobsize visits)

end State

end Watcher

end Daemon

end OpenSpeedShop
