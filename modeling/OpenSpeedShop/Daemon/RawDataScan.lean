import OpenSpeedShop.Daemon.RawDataNames
import OpenSpeedShop.Library.Runs

/-!
A scan goes on in a file where the entry for its thread says, and leaves a directory early. It passes on
every record once as long as threads and files are one to one.
-/

namespace OpenSpeedShop.Daemon

open EntryMap (lookup assign lookup_assign_self)
open List (mem_cons mem_cons_of_mem mem_cons_self append_nil mem_filter drop_drop mem_flatMap
  length_drop)

namespace Watcher

open PrefixedRecords (records Begins)

def Listed (dirs : List Dir) (path : Path) : Prop :=
  ∃ dir ∈ dirs, dir.name = path.dir ∧ path.name ∈ dir.files

def State.sentFrom (path : Path) (state : State) : List (List UInt8) :=
  (state.sent.filter (·.1 = path)).map Prod.snd

def Visit.Wants (visit : Visit) (file : DataFile) : Prop :=
  file.pid = visit.pid ∧ (visit.tid = 0 ∨ file.tid = 0 ∨ file.tid = visit.tid)

def Covers (threads : List PidAndHost) (file : DataFile) : Prop :=
  ∃ thread ∈ threads,
    (file.host = thread.host ∨ file.host = thread.host.takeWhile (· ≠ '.')) ∧
      file.pid = thread.pid ∧ (thread.tid = 0 ∨ file.tid = 0 ∨ file.tid = thread.tid)

def Action.AppendsTo (path : Path) : Action → Prop
  | .append other _ => other = path
  | .start _ | .step => False

/-- The watcher has not crashed, and the records of every file are passed on once and in order, all of
them when a scan has ended that began after the last append. -/
structure Forwarded (dirs : List Dir) (actions : List Action) (final : State) : Prop where
  alive : final.scan ≠ .crashed
  inOrder : ∀ path, final.sentFrom path <+: records (final.contents path)
  complete : ∀ before threads after, actions = before ++ .start threads :: after →
    final.scan = .idle → ∀ file : DataFile, Listed dirs file.path → Covers threads file →
      (∀ action ∈ after, ¬ action.AppendsTo file.path) →
        final.sentFrom file.path = records (final.contents file.path)

def Visit.NothingLeft (visit : Visit) (names : List Text) : Prop :=
  ∀ later ∈ names, ∀ file : DataFile, file.path = ⟨visit.dir, later⟩ → ¬ visit.Wants file

/-- The next data file of a directory is of the process; if the scan is for it, it is read, as the
one file for its thread. Or no file that the scan is for is left. -/
def Visit.Safe (threadOf : Path → ProcessThreadId) (visit : Visit) : Prop :=
  match visit.files with
  | [] => True
  | name :: names => ∃ pid, getPidFromFilename name = some pid ∧
      if pid = visit.pid then
        if (visit.useTid (getTidFromFilename name)).isSome then
          threadOf ⟨visit.dir, name⟩ = (visit.pid, visit.tid) ∧ visit.NothingLeft names
        else visit.NothingLeft [name]
      else visit.NothingLeft (name :: names)

def Safe (threadOf : Path → ProcessThreadId) (state : State) : Action → Prop
  | .append _ _ | .start _ => True
  | .step =>
    match state.scan with
    | .visiting (visit :: _) => visit.Safe threadOf
    | .sized _ blobsize _ => blobsize ≠ 0 ∧ blobsize + 4 < 2 ^ 32
    | .idle | .visiting [] | .reading _ _ | .crashed => True

def Scan.file : Scan → Option OpenFile
  | .idle | .visiting _ | .crashed => none
  | .reading file _ | .sized file _ _ => some file

def Scan.visits : Scan → List Visit
  | .idle | .crashed => []
  | .visiting visits | .reading _ visits | .sized _ _ visits => visits

def VisitOk (dirs : List Dir) (visit : Visit) : Prop :=
  0 < visit.pid ∧ ∀ name ∈ visit.files, Listed dirs ⟨visit.dir, name⟩

def Silent (bytes : List UInt8) (entry : FileInfoEntry) : Prop :=
  records ((bytes.take entry.prevSize).drop entry.readPosition) = []

structure OpenOk (dirs : List Dir) (threadOf : Path → ProcessThreadId) (state : State)
    (file : OpenFile) : Prop where
  listed : Listed dirs file.path
  thread : file.thread = threadOf file.path
  entry : EntryMap.lookup file.thread state.table = some file.entry
  size : file.size ≤ (state.contents file.path).length

structure EntryOk (bytes : List UInt8) (passed : List (List UInt8)) (entry : FileInfoEntry) : Prop where
  begins : Begins bytes passed (bytes.drop entry.readPosition)
  within : entry.readPosition ≤ bytes.length
  size : entry.prevSize ≤ bytes.length

def PathOk (threadOf : Path → ProcessThreadId) (state : State) (path : Path) : Prop :=
  match EntryMap.lookup (threadOf path) state.table with
  | none => state.sentFrom path = []
  | some entry => EntryOk (state.contents path) (state.sentFrom path) entry ∧
      (Silent (state.contents path) entry ∨
        ∃ file, state.scan.file = some file ∧ file.path = path ∧ file.size = entry.prevSize)

structure Valid (dirs : List Dir) (threadOf : Path → ProcessThreadId) (state : State) : Prop where
  alive : state.scan ≠ .crashed
  visits : ∀ visit ∈ state.scan.visits, VisitOk dirs visit
  file : ∀ file, state.scan.file = some file → OpenOk dirs threadOf state file
  sized : ∀ file blobsize visits, state.scan = .sized file blobsize visits →
    ∃ behind, BigEndianWords.read
      ((state.contents file.path).drop file.entry.readPosition) = some (blobsize, behind)
  entries : ∀ path, Listed dirs path → PathOk threadOf state path
  unlisted : ∀ path, ¬ Listed dirs path → state.sentFrom path = []

def State.Done (path : Path) (state : State) : Prop :=
  state.sentFrom path = records (state.contents path)

def State.Pending (file : DataFile) (state : State) : Prop :=
  (∃ other, state.scan.file = some other ∧ other.path = file.path) ∨
    ∃ visit ∈ state.scan.visits, visit.dir = file.path.dir ∧ file.path.name ∈ visit.files ∧ visit.Wants file

variable {dirs : List Dir} {threadOf : Path → ProcessThreadId} {state : State}

theorem valid_start : Valid dirs threadOf State.start := by
  constructor
  · intro crashed
    cases crashed
  · intro visit member
    cases member
  · intro file isFile
    cases isFile
  · intro file blobsize visits sized
    cases sized
  · intro path _
    rfl
  · intro path _
    rfl

theorem Valid.inOrder (valid : Valid dirs threadOf state) (path : Path) :
    state.sentFrom path <+: records (state.contents path) := by
  by_cases listed : Listed dirs path
  · have ok := valid.entries path listed
    unfold PathOk at ok
    split at ok
    · rw [ok]
      exact List.nil_prefix
    · rw [ok.1.begins.records]
      exact List.prefix_append _ _
  · rw [valid.unlisted path listed]
    exact List.nil_prefix

variable {path : Path}

theorem Valid.entry (valid : Valid dirs threadOf state) (listed : Listed dirs path)
    {entry : FileInfoEntry} (found : lookup (threadOf path) state.table = some entry) :
    EntryOk (state.contents path) (state.sentFrom path) entry ∧ (Silent (state.contents path) entry ∨
        ∃ file, state.scan.file = some file ∧ file.path = path ∧ file.size = entry.prevSize) := by
  have ok := valid.entries path listed
  unfold PathOk at ok
  rw [found] at ok
  exact ok

theorem EntryOk.done {entry : FileInfoEntry} (ok : EntryOk (state.contents path) (state.sentFrom path) entry)
    (empty : records ((state.contents path).drop entry.readPosition) = []) : state.Done path := by
  unfold State.Done
  rw [ok.begins.records, empty, append_nil]

variable {bytes : List UInt8}

theorem silent_of_empty {entry : FileInfoEntry}
    (empty : records (bytes.drop entry.readPosition) = []) : Silent bytes entry :=
  PrefixedRecords.records_eq_nil_of_prefix
    ((List.take_prefix entry.prevSize bytes).drop entry.readPosition) empty

theorem empty_of_silent {entry : FileInfoEntry}
    (silent : Silent bytes entry) (same : entry.prevSize = bytes.length) :
    records (bytes.drop entry.readPosition) = [] := by
  unfold Silent at silent
  rw [same, List.take_length] at silent
  exact silent

theorem Valid.leave (valid : Valid dirs threadOf state) {visits : List Visit}
    (ok : ∀ visit ∈ visits, VisitOk dirs visit) (silent : ∀ file, state.scan.file = some file →
      records ((state.contents file.path).drop file.entry.readPosition) = []) :
    Valid dirs threadOf { state with scan := .visiting visits } := by
  constructor
  · intro crashed
    cases crashed
  · exact ok
  · intro file isFile
    cases isFile
  · intro file blobsize later sized
    cases sized
  · intro path listed
    have before := valid.entries path listed
    unfold PathOk at before ⊢
    split at before
    · rename_i missing
      simp only [missing]
      exact before
    · rename_i entry found
      simp only [found]
      refine ⟨before.1, Or.inl ?_⟩
      rcases before.2 with quiet | ⟨file, isFile, rfl, -⟩
      · exact quiet
      · have here := valid.file file isFile
        rw [← here.thread, here.entry] at found
        obtain rfl := Option.some.inj found
        exact silent_of_empty (silent file isFile)
  · exact valid.unlisted

def Apart (dirs : List Dir) (threadOf : Path → ProcessThreadId) : Prop :=
  ∀ first second, Listed dirs first → Listed dirs second → threadOf first = threadOf second →
    first = second

theorem Valid.addThread (valid : Valid dirs threadOf state) (apart : Apart dirs threadOf)
    (outside : state.scan.file = none) (listed : Listed dirs path)
    (missing : lookup (threadOf path) state.table = none) : Valid dirs threadOf
      { state with table := assign (threadOf path) ⟨0, 0⟩ state.table } := by
  constructor
  · exact valid.alive
  · exact valid.visits
  · intro file isFile
    rw [outside] at isFile
    cases isFile
  · exact valid.sized
  · intro other otherListed
    have before := valid.entries other otherListed
    unfold PathOk at before ⊢
    by_cases same : other = path
    · subst same
      rw [missing] at before
      simp only [lookup_assign_self]
      refine ⟨⟨?_, Nat.zero_le _, Nat.zero_le _⟩, Or.inl ?_⟩
      · change Begins _ (state.sentFrom other) _
        rw [before]
        exact Begins.start
      · exact PrefixedRecords.records_end rfl
    · have different : threadOf other ≠ threadOf path :=
        fun equal => same (apart other path otherListed listed equal)
      simp only [EntryMap.lookup_assign_of_ne different]
      exact before
  · exact valid.unlisted

theorem Valid.reading (valid : Valid dirs threadOf state) (outside : state.scan.file = none)
    (listed : Listed dirs path) {entry : FileInfoEntry}
    (found : lookup (threadOf path) state.table = some entry) {visits : List Visit}
    (ok : ∀ visit ∈ visits, VisitOk dirs visit) : Valid dirs threadOf { state with
      scan := .reading ⟨threadOf path, path, (state.contents path).length, entry⟩ visits } := by
  constructor
  · intro crashed
    cases crashed
  · exact ok
  · intro file isFile
    obtain rfl := Option.some.inj isFile
    exact ⟨listed, rfl, found, Nat.le_refl _⟩
  · intro file blobsize later sized
    cases sized
  · intro other otherListed
    have before := valid.entries other otherListed
    unfold PathOk at before ⊢
    split at before
    · rename_i missing
      simp only [missing]
      exact before
    · rename_i otherEntry otherFound
      simp only [otherFound]
      refine ⟨before.1, Or.inl ?_⟩
      rcases before.2 with quiet | ⟨file, isFile, -⟩
      · exact quiet
      · rw [outside] at isFile
        cases isFile
  · exact valid.unlisted

variable {visit : Visit}

theorem useTid_eq_some {tid used : UInt64} (uses : visit.useTid tid = some used) : used = visit.tid := by
  unfold Visit.useTid at uses
  split at uses
  · rename_i zero
    rw [zero.2]
    exact (Option.some.inj uses).symm
  · split at uses
    · cases uses
    · rename_i same
      rw [← Option.some.inj uses]
      exact not_not.mp same

variable {next : State}

theorem progress_of_same {file : DataFile} (contents : next.contents file.path = state.contents file.path)
    (sent : next.sentFrom file.path = state.sentFrom file.path)
    (pending : state.Pending file → next.Done file.path ∨ next.Pending file)
    (before : state.Done file.path ∨ state.Pending file) : next.Done file.path ∨ next.Pending file := by
  rcases before with done | waiting
  · refine Or.inl ?_
    unfold State.Done at done ⊢
    rw [contents, sent]
    exact done
  · exact pending waiting

theorem Valid.lookupOrAdd (valid : Valid dirs threadOf state) (apart : Apart dirs threadOf)
    (outside : state.scan.file = none) (listed : Listed dirs path)
    {table : List (ProcessThreadId × FileInfoEntry)} (added : table =
      if lookup (threadOf path) state.table = none then assign (threadOf path) ⟨0, 0⟩ state.table
      else state.table) : ∃ entry, lookup (threadOf path) table = some entry ∧
      Valid dirs threadOf { state with table := table } := by
  cases found : lookup (threadOf path) state.table with
  | none =>
    rw [if_pos found] at added
    subst added
    exact ⟨⟨0, 0⟩, lookup_assign_self _ _ _, valid.addThread apart outside listed found⟩
  | some entry =>
    rw [if_neg (by rw [found]; exact fun missing => by cases missing)] at added
    subst added
    exact ⟨entry, found, valid⟩

theorem Visit.NothingLeft.head {name : Text} {names : List Text}
    (nothingLeft : visit.NothingLeft names) (files : visit.files = name :: names)
    {file : DataFile} (inDirectory : visit.dir = file.path.dir)
    (inFiles : file.path.name ∈ visit.files) (wants : visit.Wants file) : file.path = ⟨visit.dir, name⟩ := by
  rw [files] at inFiles
  rcases mem_cons.mp inFiles with same | later
  · rw [inDirectory, ← same]
  · refine absurd wants (nothingLeft _ later file ?_)
    rw [inDirectory]

theorem Valid.openFile (valid : Valid dirs threadOf state) (apart : Apart dirs threadOf)
    {visits : List Visit} (atVisit : state.scan = .visiting (visit :: visits))
    {name : Text} {names : List Text} (files : visit.files = name :: names)
    (thread : threadOf ⟨visit.dir, name⟩ = (visit.pid, visit.tid)) (nothingLeft : visit.NothingLeft names) :
    Valid dirs threadOf (state.openFile visit visit.tid name names visits) ∧
      ∀ file : DataFile, (state.Done file.path ∨ state.Pending file) →
        (state.openFile visit visit.tid name names visits).Done file.path ∨
          (state.openFile visit visit.tid name names visits).Pending file := by
  have outside : state.scan.file = none := by
    rw [atVisit]
    rfl
  have allOk : ∀ other ∈ visit :: visits, VisitOk dirs other := by
    intro other member
    refine valid.visits other ?_
    rw [atVisit]
    exact member
  obtain ⟨positive, inDir⟩ := allOk visit mem_cons_self
  have listed : Listed dirs ⟨visit.dir, name⟩ := by
    refine inDir name ?_
    rw [files]
    exact mem_cons_self
  have checked : 0 < visit.pid ∧ (0 < visit.tid ∨ visit.tid = 0 ∧ visit.tid = 0) := by
    refine ⟨positive, ?_⟩
    by_cases zero : visit.tid = 0
    · exact Or.inr ⟨zero, zero⟩
    · exact Or.inl (UInt64.pos_iff_ne_zero.mpr zero)
  obtain ⟨table, isTable⟩ : ∃ table, table =
      if lookup (visit.pid, visit.tid) state.table = none then
        assign (visit.pid, visit.tid) ⟨0, 0⟩ state.table
      else state.table := ⟨_, rfl⟩
  have tableAdded := isTable
  rw [← thread] at tableAdded
  obtain ⟨entry, found, added⟩ := valid.lookupOrAdd apart outside listed tableAdded
  have addedOutside : ({ state with table := table } : State).scan.file = none := outside
  have opened : state.openFile visit visit.tid name names visits =
      if entry.prevSize = (state.contents ⟨visit.dir, name⟩).length then
        { state with table := table, scan := .visiting visits }
      else { state with
        table := table
        scan := .reading ⟨(visit.pid, visit.tid), ⟨visit.dir, name⟩,
          (state.contents ⟨visit.dir, name⟩).length, entry⟩ ({ visit with files := names } :: visits) } := by
    rw [thread] at found
    unfold State.openFile
    simp only [checked, true_and, ← isTable, found]
  have later : ∀ other ∈ visits, VisitOk dirs other :=
    fun other member => allOk other (mem_cons_of_mem _ member)
  rw [opened]
  by_cases same : entry.prevSize = (state.contents ⟨visit.dir, name⟩).length
  · rw [if_pos same]
    have inside := added.entry listed found
    have silent : Silent (state.contents ⟨visit.dir, name⟩) entry := by
      rcases inside.2 with quiet | ⟨file, isFile, -⟩
      · exact quiet
      · rw [addedOutside] at isFile
        cases isFile
    refine ⟨added.leave later fun file isFile => ?_, fun file => progress_of_same rfl rfl ?_⟩
    · rw [addedOutside] at isFile
      cases isFile
    · rintro (⟨other, isFile, -⟩ | ⟨other, member, inDirectory, inFiles, wants⟩)
      · rw [outside] at isFile
        cases isFile
      · rw [atVisit] at member
        rcases mem_cons.mp member with rfl | old
        · have here := nothingLeft.head files inDirectory inFiles wants
          rw [here]
          exact Or.inl (inside.1.done (empty_of_silent silent same))
        · exact Or.inr (Or.inr ⟨other, old, inDirectory, inFiles, wants⟩)
  · rw [if_neg same]
    have kept : ∀ other ∈ { visit with files := names } :: visits, VisitOk dirs other := by
      intro other member
      rcases mem_cons.mp member with rfl | old
      · refine ⟨positive, fun later inNames => inDir later ?_⟩
        rw [files]
        exact mem_cons_of_mem _ inNames
      · exact later other old
    refine ⟨?_, fun file => progress_of_same rfl rfl ?_⟩
    · rw [← thread]
      exact added.reading addedOutside listed found kept
    · rintro (⟨other, isFile, -⟩ | ⟨other, member, inDirectory, inFiles, wants⟩)
      · rw [outside] at isFile
        cases isFile
      · refine Or.inr ?_
        rw [atVisit] at member
        rcases mem_cons.mp member with rfl | old
        · exact Or.inl ⟨_, rfl, (nothingLeft.head files inDirectory inFiles wants).symm⟩
        · exact Or.inr ⟨other, mem_cons_of_mem _ old, inDirectory, inFiles, wants⟩

theorem pending_of_visits {visits : List Visit} (atVisit : state.scan = .visiting (visit :: visits))
    (later : ∀ other ∈ visits, other ∈ next.scan.visits) {file : DataFile}
    (here : visit.dir = file.path.dir → file.path.name ∈ visit.files → visit.Wants file →
      next.Pending file) (pending : state.Pending file) : next.Pending file := by
  rcases pending with ⟨other, isFile, -⟩ | ⟨other, member, inDirectory, inFiles, wants⟩
  · rw [atVisit] at isFile
    cases isFile
  · rw [atVisit] at member
    rcases mem_cons.mp member with rfl | old
    · exact here inDirectory inFiles wants
    · exact Or.inr ⟨other, later other old, inDirectory, inFiles, wants⟩

theorem Valid.visitNext (valid : Valid dirs threadOf state) (apart : Apart dirs threadOf)
    {visits : List Visit} (atVisit : state.scan = .visiting (visit :: visits))
    (safe : visit.Safe threadOf) : Valid dirs threadOf (state.visitNext visit visits) ∧
      ∀ file : DataFile, (state.Done file.path ∨ state.Pending file) →
        (state.visitNext visit visits).Done file.path ∨ (state.visitNext visit visits).Pending file := by
  have allOk : ∀ other ∈ visit :: visits, VisitOk dirs other := by
    intro other member
    refine valid.visits other ?_
    rw [atVisit]
    exact member
  have later : ∀ other ∈ visits, VisitOk dirs other :=
    fun other member => allOk other (mem_cons_of_mem _ member)
  have outside : ∀ file, state.scan.file = some file →
      records ((state.contents file.path).drop file.entry.readPosition) = [] := by
    intro file isFile
    rw [atVisit] at isFile
    cases isFile
  unfold State.visitNext
  unfold Visit.Safe at safe
  split
  · rename_i files
    refine ⟨valid.leave later outside, fun file => progress_of_same rfl rfl fun pending => ?_⟩
    refine Or.inr (pending_of_visits atVisit ?_ ?_ pending)
    · exact fun other member => member
    · intro _ inFiles _
      rw [files] at inFiles
      cases inFiles
  · rename_i name names files
    rw [files] at safe
    obtain ⟨pid, parsed, safe⟩ := safe
    simp only [parsed]
    by_cases own : pid = visit.pid
    · rw [if_neg (not_not.mpr own)]
      rw [if_pos own] at safe
      cases uses : visit.useTid (getTidFromFilename name) with
      | none =>
        rw [uses, if_neg (by simp)] at safe
        have kept : ∀ other ∈ { visit with files := names } :: visits, VisitOk dirs other := by
          intro other member
          rcases mem_cons.mp member with rfl | old
          · obtain ⟨positive, inDir⟩ := allOk visit mem_cons_self
            refine ⟨positive, fun later inNames => inDir later ?_⟩
            rw [files]
            exact mem_cons_of_mem _ inNames
          · exact later other old
        refine ⟨valid.leave kept outside, fun file => progress_of_same rfl rfl fun pending => ?_⟩
        refine Or.inr (pending_of_visits atVisit ?_ ?_ pending)
        · exact fun other member => mem_cons_of_mem _ member
        · intro inDirectory inFiles wants
          rw [files] at inFiles
          rcases mem_cons.mp inFiles with same | inNames
          · refine absurd wants (safe name mem_cons_self file ?_)
            rw [inDirectory, ← same]
          · exact Or.inr ⟨_, mem_cons_self, inDirectory, inNames, wants⟩
      | some tid =>
        obtain rfl := useTid_eq_some uses
        rw [uses, if_pos (by simp)] at safe
        exact valid.openFile apart atVisit files safe.1 safe.2
    · rw [if_pos own]
      rw [if_neg own] at safe
      refine ⟨valid.leave later outside, fun file => progress_of_same rfl rfl fun pending => ?_⟩
      refine Or.inr (pending_of_visits atVisit ?_ ?_ pending)
      · exact fun other member => member
      · intro inDirectory inFiles wants
        rw [files] at inFiles
        refine absurd wants (safe file.path.name inFiles file ?_)
        rw [inDirectory]

variable {file : OpenFile}

theorem Valid.close (valid : Valid dirs threadOf state) {visits : List Visit}
    (isFile : state.scan.file = some file) (areVisits : state.scan.visits = visits)
    (empty : records ((state.contents file.path).drop file.entry.readPosition) = []) :
    Valid dirs threadOf { state with scan := .visiting visits } ∧
      ∀ other : DataFile, (state.Done other.path ∨ state.Pending other) →
        State.Done other.path { state with scan := .visiting visits } ∨
          State.Pending other { state with scan := .visiting visits } := by
  constructor
  · refine valid.leave (fun visit member => valid.visits visit (areVisits ▸ member)) ?_
    intro other isOther
    obtain rfl := Option.some.inj (isFile.symm.trans isOther)
    exact empty
  · refine fun other => progress_of_same rfl rfl ?_
    rintro (⟨current, isCurrent, same⟩ | ⟨visit, member, wanted⟩)
    · obtain rfl := Option.some.inj (isFile.symm.trans isCurrent)
      have ok := valid.file file isFile
      have entry := (valid.entry ok.listed (ok.thread ▸ ok.entry)).1
      rw [← same]
      exact Or.inl (entry.done empty)
    · exact Or.inr (Or.inr ⟨visit, areVisits ▸ member, wanted⟩)

theorem Valid.readSize (valid : Valid dirs threadOf state)
    {visits : List Visit} (atFile : state.scan = .reading file visits) :
    Valid dirs threadOf (state.readSize file visits) ∧
      ∀ other : DataFile, (state.Done other.path ∨ state.Pending other) →
        (state.readSize file visits).Done other.path ∨ (state.readSize file visits).Pending other := by
  have isFile : state.scan.file = some file := by
    rw [atFile]
    rfl
  have areVisits : state.scan.visits = visits := by
    rw [atFile]
    rfl
  unfold State.readSize
  split
  · rename_i nothing
    exact valid.close isFile areVisits (PrefixedRecords.records_end nothing)
  · rename_i blobsize behind read
    refine ⟨⟨?_, ?_, ?_, ?_, ?_, ?_⟩, fun other => progress_of_same rfl rfl ?_⟩
    · intro crashed
      cases crashed
    · exact fun visit member => valid.visits visit (areVisits ▸ member)
    · intro other isOther
      obtain rfl := Option.some.inj isOther
      have ok := valid.file file isFile
      exact ⟨ok.listed, ok.thread, ok.entry, ok.size⟩
    · intro other size later sized
      obtain ⟨rfl, rfl, -⟩ := Scan.sized.inj sized
      exact ⟨behind, read⟩
    · intro path listed
      have before := valid.entries path listed
      unfold PathOk at before ⊢
      rw [isFile] at before
      exact before
    · exact valid.unlisted
    · rintro (⟨current, isCurrent, same⟩ | ⟨visit, member, wanted⟩)
      · rw [isFile] at isCurrent
        exact Or.inr (Or.inl ⟨current, isCurrent, same⟩)
      · exact Or.inr (Or.inr ⟨visit, areVisits ▸ member, wanted⟩)

theorem sentFrom_append (sent : Path × List UInt8) (path : Path) (table : List _) (scan : Scan) :
    State.sentFrom path { state with table := table, sent := state.sent ++ [sent], scan := scan } =
      state.sentFrom path ++ if sent.1 = path then [sent.2] else [] := by
  unfold State.sentFrom
  by_cases same : sent.1 = path
  · simp [same]
  · simp [same]

section

variable (valid : Valid dirs threadOf state) (apart : Apart dirs threadOf) {blobsize : Nat}
  {visits : List Visit} (atFile : state.scan = .sized file blobsize visits)
include valid apart atFile

theorem Valid.send (complete : blobsize ≤
      ((state.contents file.path).drop (file.entry.readPosition + 4)).length) :
    Valid dirs threadOf { state with
      table := assign file.thread ⟨file.entry.readPosition + 4 + blobsize, file.size⟩ state.table
      sent := state.sent ++
        [(file.path, ((state.contents file.path).drop (file.entry.readPosition + 4)).take blobsize)]
      scan := .reading { file with
        entry := ⟨file.entry.readPosition + 4 + blobsize, file.size⟩ } visits } := by
  have isFile : state.scan.file = some file := by
    rw [atFile]
    rfl
  have areVisits : state.scan.visits = visits := by
    rw [atFile]
    rfl
  have ok := valid.file file isFile
  have entry := (valid.entry ok.listed (ok.thread ▸ ok.entry)).1
  obtain ⟨behind, read⟩ := valid.sized file blobsize visits atFile
  have isBehind := BigEndianWords.eq_drop_of_read read
  rw [drop_drop] at isBehind
  constructor
  · intro crashed
    cases crashed
  · exact fun visit member => valid.visits visit (areVisits ▸ member)
  · intro other isOther
    obtain rfl := Option.some.inj isOther
    exact ⟨ok.listed, ok.thread, lookup_assign_self _ _ _, ok.size⟩
  · intro other size later sized
    cases sized
  · intro path listed
    unfold PathOk
    by_cases same : path = file.path
    · subst same
      rw [← ok.thread]
      simp only [lookup_assign_self, sentFrom_append, if_true]
      rw [← isBehind] at complete ⊢
      have next := entry.begins.next read complete
      rw [isBehind, drop_drop, ← isBehind] at next
      rw [isBehind, length_drop] at complete
      have bound := BigEndianWords.length_of_read read
      rw [isBehind, length_drop, length_drop] at bound
      refine ⟨⟨next, ?_, ok.size⟩, Or.inr ⟨_, rfl, rfl, rfl⟩⟩
      change file.entry.readPosition + 4 + blobsize ≤ _
      omega
    · have different : threadOf path ≠ file.thread := by
        rw [ok.thread]
        exact fun equal => same (apart path file.path listed ok.listed equal)
      have before := valid.entries path listed
      unfold PathOk at before
      rw [EntryMap.lookup_assign_of_ne different, sentFrom_append, if_neg (Ne.symm same), append_nil]
      cases found : lookup (threadOf path) state.table with
      | none =>
        rw [found] at before
        exact before
      | some otherEntry =>
        rw [found] at before
        refine ⟨before.1, Or.inl ?_⟩
        rcases before.2 with quiet | ⟨current, isCurrent, here, -⟩
        · exact quiet
        · obtain rfl := Option.some.inj (isFile.symm.trans isCurrent)
          exact absurd here.symm same
  · intro path unlisted
    have different : file.path ≠ path := fun same => unlisted (same ▸ ok.listed)
    rw [sentFrom_append, if_neg different, append_nil]
    exact valid.unlisted path unlisted

theorem Valid.readBlob (nonempty : blobsize ≠ 0) (fits : blobsize + 4 < 2 ^ 32) :
    Valid dirs threadOf (state.readBlob file blobsize visits) ∧
      ∀ other : DataFile, (state.Done other.path ∨ state.Pending other) →
        (state.readBlob file blobsize visits).Done other.path ∨
          (state.readBlob file blobsize visits).Pending other := by
  have isFile : state.scan.file = some file := by
    rw [atFile]
    rfl
  have areVisits : state.scan.visits = visits := by
    rw [atFile]
    rfl
  obtain ⟨behind, read⟩ := valid.sized file blobsize visits atFile
  have isBehind := BigEndianWords.eq_drop_of_read read
  rw [drop_drop] at isBehind
  unfold State.readBlob
  rw [if_neg (Nat.not_le.mpr fits), ← isBehind]
  by_cases cut : behind.length < blobsize
  · rw [if_pos (Or.inr cut)]
    exact valid.close isFile areVisits (PrefixedRecords.records_cut read cut)
  · rw [if_neg (fun either => either.elim nonempty cut)]
    have complete := Nat.not_lt.mp cut
    rw [isBehind] at complete ⊢
    refine ⟨valid.send apart atFile complete, fun other before => ?_⟩
    by_cases same : file.path = other.path
    · exact Or.inr (Or.inl ⟨_, rfl, same⟩)
    · refine @progress_of_same state _ other rfl ?_ ?_ before
      · rw [sentFrom_append, if_neg same, append_nil]
      · rintro (⟨current, isCurrent, here⟩ | ⟨visit, member, wanted⟩)
        · obtain rfl := Option.some.inj (isFile.symm.trans isCurrent)
          exact absurd here same
        · exact Or.inr (Or.inr ⟨visit, areVisits ▸ member, wanted⟩)

end

theorem EntryOk.append {passed : List (List UInt8)} {entry : FileInfoEntry}
    (ok : EntryOk bytes passed entry) (more : List UInt8) : EntryOk (bytes ++ more) passed entry := by
  constructor
  · rw [List.drop_append_of_le_length ok.within]
    exact ok.begins.append more
  · rw [List.length_append]
    exact Nat.le_add_right_of_le ok.within
  · rw [List.length_append]
    exact Nat.le_add_right_of_le ok.size

theorem Silent.append {entry : FileInfoEntry} (silent : Silent bytes entry)
    (size : entry.prevSize ≤ bytes.length) (more : List UInt8) : Silent (bytes ++ more) entry := by
  unfold Silent
  rw [List.take_append_of_le_length size]
  exact silent

theorem Valid.append (valid : Valid dirs threadOf state) (path : Path) (more : List UInt8) :
    Valid dirs threadOf { state with
      contents := Function.update state.contents path (state.contents path ++ more) } := by
  have grown : ∀ other, ∃ added,
      Function.update state.contents path (state.contents path ++ more) other =
        state.contents other ++ added := by
    intro other
    by_cases same : other = path
    · subst same
      exact ⟨more, Function.update_self _ _ _⟩
    · exact ⟨[], by rw [Function.update_of_ne same, append_nil]⟩
  constructor
  · exact valid.alive
  · exact valid.visits
  · intro file isFile
    have ok := valid.file file isFile
    refine ⟨ok.listed, ok.thread, ok.entry, ?_⟩
    obtain ⟨added, is⟩ := grown file.path
    simp only [is, List.length_append]
    exact Nat.le_add_right_of_le ok.size
  · intro file blobsize visits sized
    obtain ⟨behind, read⟩ := valid.sized file blobsize visits sized
    have isFile : state.scan.file = some file := by
      have atSize : state.scan = .sized file blobsize visits := sized
      rw [atSize]
      rfl
    have ok := valid.file file isFile
    have entry := (valid.entry ok.listed (ok.thread ▸ ok.entry)).1
    obtain ⟨added, is⟩ := grown file.path
    simp only [is]
    rw [List.drop_append_of_le_length entry.within]
    exact ⟨_, BigEndianWords.read_append read added⟩
  · intro other listed
    have before := valid.entries other listed
    unfold PathOk at before ⊢
    obtain ⟨added, is⟩ := grown other
    simp only [is]
    split at before
    · exact before
    · refine ⟨before.1.append added, ?_⟩
      rcases before.2 with quiet | reading
      · exact Or.inl (quiet.append before.1.size added)
      · exact Or.inr reading
  · exact valid.unlisted

theorem Valid.start (valid : Valid dirs threadOf state) (idle : state.scan = .idle)
    (threads : List PidAndHost) :
    Valid dirs threadOf { state with scan := .visiting (scans dirs threads) } := by
  refine valid.leave ?_ ?_
  · intro visit member
    obtain ⟨thread, -, member⟩ := mem_flatMap.mp member
    have ofScan : ∀ host, visit ∈ scanForRawPerformanceData dirs thread.pid host thread.tid →
        VisitOk dirs visit := by
      intro host member
      obtain ⟨dir, inDirs, rfl⟩ := List.mem_map.mp member
      refine ⟨thread.positive, fun name inFiles => ?_⟩
      exact ⟨dir, (mem_filter.mp inDirs).1, rfl, (mem_filter.mp inFiles).1⟩
    rcases List.mem_append.mp member with whole | part
    · exact ofScan _ whole
    · exact ofScan _ part
  · intro file isFile
    rw [idle] at isFile
    cases isFile

theorem pending_of_covers {threads : List PidAndHost} {file : DataFile}
    (listed : Listed dirs file.path) (covers : Covers threads file) :
    State.Pending file { state with scan := .visiting (scans dirs threads) } := by
  obtain ⟨thread, member, host, pid, tid⟩ := covers
  obtain ⟨dir, inDirs, isDir, inFiles⟩ := listed
  have ofScan : ∀ host, file.host = host →
      ∃ visit ∈ scanForRawPerformanceData dirs thread.pid host thread.tid,
        visit.dir = file.path.dir ∧ file.path.name ∈ visit.files ∧ visit.Wants file := by
    rintro host rfl
    refine ⟨_, List.mem_map_of_mem (mem_filter.mpr ⟨inDirs, ?_⟩), isDir, ?_, pid, tid⟩
    · rw [isDir, ← pid]
      exact decide_eq_true (List.infix_refl _)
    · refine mem_filter.mpr ⟨inFiles, decide_eq_true ?_⟩
      exact (List.suffix_append _ _).isInfix
  rcases host with whole | part
  · obtain ⟨visit, inScan, wanted⟩ := ofScan _ whole
    exact Or.inr ⟨visit, mem_flatMap.mpr ⟨thread, member, List.mem_append_left _ inScan⟩, wanted⟩
  · obtain ⟨visit, inScan, wanted⟩ := ofScan _ part
    exact Or.inr ⟨visit, mem_flatMap.mpr ⟨thread, member, List.mem_append_right _ inScan⟩, wanted⟩

theorem start_eq_some {threads : List PidAndHost} : state.step dirs (.start threads) = some next ↔
      state.scan = .idle ∧ next = { state with scan := .visiting (scans dirs threads) } := by
  unfold State.step
  cases atScan : state.scan with
  | idle => simp [eq_comm]
  | visiting visits => simp
  | reading file visits => simp
  | sized file blobsize visits => simp
  | crashed => simp

theorem Valid.ended (valid : Valid dirs threadOf state) (atEnd : state.scan = .visiting []) :
    Valid dirs threadOf { state with scan := .idle } := by
  constructor
  · intro crashed
    cases crashed
  · intro visit member
    cases member
  · intro file isFile
    cases isFile
  · intro file blobsize visits sized
    cases sized
  · intro path listed
    have before := valid.entries path listed
    unfold PathOk at before ⊢
    rw [atEnd] at before
    exact before
  · exact valid.unlisted

theorem Valid.step (valid : Valid dirs threadOf state) (apart : Apart dirs threadOf)
    {action : Action} (safe : Safe threadOf state action) (stepped : state.step dirs action = some next) :
    Valid dirs threadOf next ∧ ∀ file : DataFile, ¬ action.AppendsTo file.path →
        (state.Done file.path ∨ state.Pending file) → next.Done file.path ∨ next.Pending file := by
  cases action with
  | append path bytes =>
    obtain rfl := Option.some.inj stepped
    refine ⟨valid.append path bytes, fun file elsewhere => progress_of_same ?_ rfl Or.inr⟩
    exact Function.update_of_ne (Ne.symm elsewhere) _ _
  | start threads =>
    obtain ⟨idle, rfl⟩ := start_eq_some.mp stepped
    refine ⟨valid.start idle threads, fun file _ => progress_of_same rfl rfl ?_⟩
    rintro (⟨other, isFile, -⟩ | ⟨visit, member, -⟩)
    · rw [idle] at isFile
      cases isFile
    · rw [idle] at member
      cases member
  | step =>
    unfold State.step at stepped
    unfold Safe at safe
    cases atScan : state.scan with
    | idle => simp only [atScan, reduceCtorEq] at stepped
    | crashed => simp only [atScan, reduceCtorEq] at stepped
    | visiting visits =>
      cases visits with
      | nil =>
        simp only [atScan, Option.some.injEq] at stepped
        subst stepped
        refine ⟨valid.ended atScan, fun file _ => progress_of_same rfl rfl ?_⟩
        rintro (⟨other, isFile, -⟩ | ⟨visit, member, -⟩)
        · rw [atScan] at isFile
          cases isFile
        · rw [atScan] at member
          cases member
      | cons visit visits =>
        simp only [atScan, Option.some.injEq] at stepped safe
        subst stepped
        have visited := valid.visitNext apart atScan safe
        exact ⟨visited.1, fun file _ => visited.2 file⟩
    | reading file visits =>
      simp only [atScan, Option.some.injEq] at stepped
      subst stepped
      have read := valid.readSize atScan
      exact ⟨read.1, fun file _ => read.2 file⟩
    | sized file blobsize visits =>
      simp only [atScan, Option.some.injEq] at stepped safe
      subst stepped
      have read := valid.readBlob apart atScan safe.1 safe.2
      exact ⟨read.1, fun file _ => read.2 file⟩

theorem run_valid (apart : Apart dirs threadOf) {actions : List Action} {start final : State}
    (valid : Valid dirs threadOf start) (safe : Runs.Along (Safe threadOf) (State.step dirs) start actions)
    (ran : Runs.run (State.step dirs) start actions = some final) : Valid dirs threadOf final :=
  Runs.run_invariant_along (Valid dirs threadOf)
    (fun _ _ _ valid safe stepped => (valid.step apart safe stepped).1) valid safe ran

theorem run_progress (apart : Apart dirs threadOf) {file : DataFile} {actions : List Action}
    (elsewhere : ∀ action ∈ actions, ¬ action.AppendsTo file.path) :
    ∀ {start final : State}, Valid dirs threadOf start →
      Runs.Along (Safe threadOf) (State.step dirs) start actions →
      Runs.run (State.step dirs) start actions = some final →
      (start.Done file.path ∨ start.Pending file) → final.Done file.path ∨ final.Pending file := by
  induction actions with
  | nil =>
    intro start final _ _ ran before
    rw [Runs.run_nil, Option.some.injEq] at ran
    exact ran ▸ before
  | cons action rest ih =>
    intro start final valid safe ran before
    rw [Runs.run_cons] at ran
    obtain ⟨next, stepped, remaining⟩ := Option.bind_eq_some_iff.mp ran
    have progress := valid.step apart safe.1 stepped
    refine ih (fun later member => elsewhere later (mem_cons_of_mem _ member)) progress.1
      (safe.2 next stepped) remaining ?_
    exact progress.2 file (elsewhere action mem_cons_self) before

/-- In a run whose steps are all safe the records of all files are forwarded. -/
theorem forwarded (apart : Apart dirs threadOf) {actions : List Action} {final : State}
    (ran : Runs.run (State.step dirs) State.start actions = some final)
    (safe : Runs.Along (Safe threadOf) (State.step dirs) State.start actions) :
    Forwarded dirs actions final := by
  have valid := run_valid apart valid_start safe ran
  refine ⟨valid.alive, valid.inOrder, ?_⟩
  rintro before threads after rfl idle file listed covers elsewhere
  rw [Runs.run_append] at ran
  obtain ⟨middle, ranBefore, ranAfter⟩ := Option.bind_eq_some_iff.mp ran
  obtain ⟨safeBefore, safeAfter⟩ := Runs.along_append safe ranBefore
  rw [Runs.run_cons] at ranAfter
  obtain ⟨started, begins, remaining⟩ := Option.bind_eq_some_iff.mp ranAfter
  have validMiddle := run_valid apart valid_start safeBefore ranBefore
  have validStarted := (validMiddle.step apart safeAfter.1 begins).1
  have pending : started.Pending file := by
    obtain ⟨-, rfl⟩ := start_eq_some.mp begins
    exact pending_of_covers listed covers
  rcases run_progress apart elsewhere validStarted (safeAfter.2 started begins) remaining
    (Or.inr pending) with done | ⟨other, isFile, -⟩ | ⟨visit, member, -⟩
  · exact done
  · rw [idle] at isFile
    cases isFile
  · rw [idle] at member
    cases member

theorem safe_of_last {visits : List Visit} {name : Text}
    (atVisit : state.scan = .visiting (visit :: visits)) (files : visit.files = [name])
    (pid : getPidFromFilename name = some (visit.pid : Int))
    (reads : (visit.useTid (getTidFromFilename name)).isSome)
    (thread : threadOf ⟨visit.dir, name⟩ = (visit.pid, visit.tid)) : Safe threadOf state .step := by
  unfold Safe
  rw [atVisit]
  change visit.Safe threadOf
  unfold Visit.Safe
  rw [files]
  refine ⟨visit.pid, pid, ?_⟩
  rw [if_pos rfl, if_pos reads]
  exact ⟨thread, fun later member => by cases member⟩

def rank : PidAndHost := ⟨12, by decide, 7, "node1.site".toList⟩

def rankFile : DataFile := ⟨"node1".toList, "a".toList, 12, 7⟩

def rankDirs : List Dir := [⟨rankFile.path.dir, [rankFile.path.name]⟩]

theorem rankFile_pid : getPidFromFilename rankFile.path.name = some (12 : Int) :=
  (threadOf_path (by decide) (by decide) (by decide)).1

def inParts : List Action :=
  [.append rankFile.path [0, 0, 0], .start [rank], .step, .append rankFile.path [1, 65], .step,
    .step, .step, .step, .step, .start [rank], .step, .step, .step, .step]

theorem forwarded_inParts :
    ∃ final, Runs.run (State.step rankDirs) State.start inParts = some final ∧
      Forwarded rankDirs inParts final := by
  refine ⟨_, rfl, @forwarded rankDirs (fun _ => (12, 7)) ?_ inParts _ rfl ?_⟩
  · rintro ⟨firstDir, firstName⟩ ⟨secondDir, secondName⟩ ⟨first, isFirst, rfl, firstFile⟩
      ⟨second, isSecond, rfl, secondFile⟩ -
    obtain rfl := List.mem_singleton.mp isFirst
    obtain rfl := List.mem_singleton.mp isSecond
    rw [Path.mk.injEq]
    exact ⟨rfl, (List.mem_singleton.mp firstFile).trans (List.mem_singleton.mp secondFile).symm⟩
  · refine Runs.along_cons trivial rfl (Runs.along_cons trivial rfl ?_)
    refine Runs.along_cons (@safe_of_last _ _ _ [] _ rfl rfl rankFile_pid rfl rfl) rfl ?_
    refine Runs.along_cons trivial rfl (Runs.along_cons trivial rfl ?_)
    refine Runs.along_cons ⟨by decide, by decide⟩ rfl (Runs.along_cons trivial rfl ?_)
    refine Runs.along_cons trivial rfl (Runs.along_cons trivial rfl ?_)
    refine Runs.along_cons trivial rfl ?_
    refine Runs.along_cons (@safe_of_last _ _ _ [] _ rfl rfl rankFile_pid rfl rfl) rfl ?_
    refine Runs.along_cons trivial rfl (Runs.along_cons trivial rfl ?_)
    exact Runs.along_cons trivial rfl trivial

def serialRank : PidAndHost := ⟨12, by decide, 0, "node1.site".toList⟩

def serialFile : DataFile := ⟨"node1".toList, "a".toList, 12, 0⟩

def serialDirs : List Dir := [⟨serialFile.path.dir, [serialFile.path.name]⟩]

def serialRun : List Action :=
  [.append serialFile.path [0, 0, 0, 1, 65], .start [serialRank], .step, .step]

theorem serialRun_nothingSent :
    ¬ ∀ final, Runs.run (State.step serialDirs) State.start serialRun = some final →
      Forwarded serialDirs serialRun final := by
  intro claimed
  have complete := (claimed _ rfl).complete [.append serialFile.path [0, 0, 0, 1, 65]] [serialRank]
    [.step, .step] rfl rfl serialFile ⟨_, List.mem_cons_self, rfl, List.mem_cons_self⟩
    ⟨serialRank, List.mem_cons_self, Or.inr rfl, rfl, Or.inl rfl⟩ (by simp [Action.AppendsTo])
  have nothing : [] = records [0, 0, 0, 1, 65] := complete
  rw [@PrefixedRecords.records_complete _ [65] 1 rfl (by decide)] at nothing
  cases nothing

end Watcher

end OpenSpeedShop.Daemon
