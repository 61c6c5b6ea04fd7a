import OpenSpeedShop.Library.IntRanges
import Mathlib.Data.List.Sort

/-!
The views that `cvClusters` creates: the threads of a cluster become a target list, with
consecutive identifiers merged into ranges, by which a view filters the threads.
-/

namespace OpenSpeedShop.ClusterView

structure Thread where
  entry : Nat
  host : String
  processId : Int
  posixThreadId : Option (BitVec 64)
  openMPThreadId : Option Int
  mpiRank : Option Int
  deriving DecidableEq

def Thread.threadId (thread : Thread) : Option Int :=
  match thread.openMPThreadId with
  | some id => some id
  | none => thread.posixThreadId.map BitVec.toInt

structure ThreadInfo where
  hostName : String
  processId : Int
  threadId : Int
  rankId : Int
  deriving DecidableEq

def ThreadInfo.lt (t1 t2 : ThreadInfo) : Bool :=
  if t1.rankId ≠ t2.rankId then t1.rankId < t2.rankId
  else if t1.processId ≠ t2.processId then t1.processId < t2.processId
  else if t1.threadId ≠ t2.threadId then t1.threadId < t2.threadId
  else if t1.hostName ≠ t2.hostName then t1.hostName < t2.hostName
  else false

def threadInfo (thread : Thread) : ThreadInfo where
  hostName := thread.host
  processId := thread.processId
  threadId := thread.threadId.getD (-1)
  rankId := thread.mpiRank.getD (-1)

def buildThreadInfo (tgrp : List Thread) : List ThreadInfo := tgrp.map threadInfo

structure ThreadRangeInfo where
  hostName : String
  processId : List (Int × Int)
  threadId : List (Int × Int)
  rankId : List (Int × Int)

def threadRangeInfo (info : ThreadInfo) : ThreadRangeInfo where
  hostName := info.hostName
  processId := [(info.processId, info.processId)]
  threadId := [(info.threadId, info.threadId)]
  rankId := [(info.rankId, info.rankId)]

structure Merging where
  ranks : Bool
  threads : Bool
  pids : Bool
  haveHosts : Bool

def mergingOf (infos : List ThreadInfo) : Merging :=
  let hostCount := infos.countP fun info => info.hostName ≠ ""
  let pidCount := infos.countP fun info => info.processId ≠ 0
  let threadCount := infos.countP fun info => info.threadId ≠ 0
  let rankCount := infos.countP fun info => info.rankId ≥ 0
  let mergingRanks := decide (rankCount > 1)
  let mergingThreads := !mergingRanks && decide (threadCount > 1)
  let mergingPids := !mergingThreads && !mergingRanks && decide (pidCount > 1)
  { ranks := mergingRanks
    threads := mergingThreads
    pids := mergingPids
    haveHosts := decide (hostCount > 1) }

structure Compression where
  done : List ThreadRangeInfo
  currentTRI : ThreadRangeInfo
  currentHost : String
  endPid : Int
  endThread : Int
  endRank : Int

def Compression.begin (done : List ThreadRangeInfo) (info : ThreadInfo) : Compression where
  done := done
  currentTRI := threadRangeInfo info
  currentHost := info.hostName
  endPid := info.processId
  endThread := info.threadId
  endRank := info.rankId

def startsNew (merging : Merging) (state : Compression) (next : ThreadInfo) : Bool :=
  (merging.haveHosts && next.hostName != state.currentHost) ||
    (!merging.pids && next.processId != state.endPid) ||
    (!merging.threads && next.threadId != state.endThread) ||
    (!merging.ranks && next.rankId != state.endRank)

def compressStep (merging : Merging) (state : Compression) (next : ThreadInfo) : Compression :=
  let tri := state.currentTRI
  if startsNew merging state next then .begin (state.done ++ [tri]) next
  else if merging.ranks then
    { state with
      currentTRI := { tri with rankId := IntRanges.append tri.rankId state.endRank next.rankId }
      endRank := next.rankId }
  else if merging.threads then
    { state with
      currentTRI :=
        { tri with threadId := IntRanges.append tri.threadId state.endThread next.threadId }
      endThread := next.threadId }
  else if merging.pids then
    { state with
      currentTRI := { tri with processId := IntRanges.append tri.processId state.endPid next.processId }
      endPid := next.processId }
  else state

def sorted (infos : List ThreadInfo) : List ThreadInfo :=
  infos.insertionSort fun t1 t2 => t2.lt t1 = false

def compressThreadInfo (infos : List ThreadInfo) : List ThreadRangeInfo :=
  match sorted infos with
  | [] => []
  | first :: rest =>
    let state := rest.foldl (compressStep (mergingOf (sorted infos))) (.begin [] first)
    state.done ++ [state.currentTRI]

inductive ParseRange (Value : Type)
  | point (value : Value)
  | range (first last : Value)

structure ParseTarget where
  hostList : List (ParseRange String)
  fileList : List (ParseRange String)
  pidList : List (ParseRange Int)
  threadList : List (ParseRange Int)
  rankList : List (ParseRange Int)

def parseRange (range : Int × Int) : ParseRange Int :=
  if range.1 = range.2 then .point range.1 else .range range.1 range.2

def parseTarget (fileList : List (ParseRange String)) (tri : ThreadRangeInfo) : ParseTarget where
  hostList := [.point tri.hostName]
  fileList := fileList
  pidList := tri.processId.map parseRange
  threadList := tri.threadId.map parseRange
  rankList := tri.rankId.map parseRange

/-- The target list that `SS_cvClusters` makes for a cluster. The files are pushed to the first
target, once for each thread. -/
def clusterTargets (files : List String) (cluster : List Thread) : List ParseTarget :=
  match compressThreadInfo (buildThreadInfo cluster) with
  | [] => []
  | first :: rest =>
    let fileList := (cluster.map fun _ => files.map ParseRange.point).flatten
    parseTarget fileList first :: rest.map (parseTarget [])

def withinRange (value : Int) : ParseRange Int → Bool
  | .point first => value = first
  | .range first last => first ≤ value ∧ value ≤ last

def withinHostRange (canonicalName : String → String) (name : String) : ParseRange String → Bool
  | .point first => name = canonicalName first
  | .range first last => canonicalName first ≤ name ∧ name ≤ canonicalName last

def includeThread (canonicalName : String → String) (thread : Thread) (target : ParseTarget) :
    Bool :=
  (target.rankList.isEmpty || thread.mpiRank.isNone ||
      target.rankList.any (withinRange (thread.mpiRank.getD (-1)))) &&
    (target.threadList.isEmpty || thread.threadId.isNone ||
      target.threadList.any (withinRange (thread.threadId.getD (-1)))) &&
    (target.pidList.isEmpty || target.pidList.any (withinRange thread.processId)) &&
    (target.hostList.isEmpty || target.hostList.any (withinHostRange canonicalName thread.host))

def filterThreadGroup (canonicalName : String → String) (targets : List ParseTarget)
    (tgrp : List Thread) : List Thread :=
  match targets with
  | [] => tgrp
  | targets => tgrp.filter fun thread => targets.any (includeThread canonicalName thread)

structure Partition (tgrp : List Thread) where
  clusters : List (List Thread)
  nonempty : ∀ cluster ∈ clusters, cluster ≠ []
  covering : ∀ thread, thread ∈ tgrp ↔ ∃ cluster ∈ clusters, thread ∈ cluster
  disjoint : clusters.Pairwise List.Disjoint

def SelectsExactly (canonicalName : String → String) (files : List String)
    (tgrp cluster : List Thread) : Prop :=
  ∀ thread, thread ∈ filterThreadGroup canonicalName (clusterTargets files cluster) tgrp ↔ thread ∈ cluster

/-- The host name written for the thread that follows in the sorted vector: the one of the
current target, unless a new target starts. -/
def hostAfter (merging : Merging) (host : String) (previous next : ThreadInfo) : String :=
  if (merging.haveHosts && next.hostName != host) ||
      (!merging.pids && next.processId != previous.processId) ||
      (!merging.threads && next.threadId != previous.threadId) ||
      (!merging.ranks && next.rankId != previous.rankId) then next.hostName
  else host

def writtenAfter (merging : Merging) (host : String) (previous : ThreadInfo) :
    List ThreadInfo → List (String × ThreadInfo)
  | [] => []
  | next :: rest =>
    let host := hostAfter merging host previous next
    (host, next) :: writtenAfter merging host next rest

def written (cluster : List Thread) : List (String × ThreadInfo) :=
  let infos := sorted (buildThreadInfo cluster)
  match infos with
  | [] => []
  | first :: rest => (first.hostName, first) :: writtenAfter (mergingOf infos) first.hostName first rest

/-- The thread is on the host and in the process, and it agrees with the information on those of
its identifiers that it has. -/
def Fits (canonicalName : String → String) (host : String) (info : ThreadInfo) (thread : Thread) : Prop :=
  canonicalName host = thread.host ∧ info.processId = thread.processId ∧
    (∀ id ∈ thread.threadId, info.threadId = id) ∧ (∀ rank ∈ thread.mpiRank, info.rankId = rank)

structure ToldApart (canonicalName : String → String) (tgrp cluster : List Thread) : Prop where
  members : ∀ thread ∈ cluster, ∃ entry ∈ written cluster, Fits canonicalName entry.1 entry.2 thread
  others : ∀ thread ∈ tgrp, thread ∉ cluster →
    ∀ entry ∈ written cluster, ¬ Fits canonicalName entry.1 entry.2 thread

end OpenSpeedShop.ClusterView
