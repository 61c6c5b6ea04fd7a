import OpenSpeedShop.Library.Fallible
import Mathlib.Data.Char
import Mathlib.Data.List.Dedup
import Mathlib.Data.List.Infix
import Mathlib.Data.List.Lex
import Mathlib.Data.List.Sort

/-!
The search of the raw data directories of an offline experiment, and the passes
in which the files that are found are converted: one for each executable.
-/

namespace OpenSpeedShop

open List (mem_filter mem_map)

abbrev Text := List Char

def Text.set (texts : List Text) : List Text :=
  texts.dedup.mergeSort fun first second => decide (first ≤ second)

namespace Text

/-- `substr(0, find(needle))`, the whole text where the needle is not found. -/
def before (needle : Text) : Text → Text
  | [] => []
  | char :: rest => if needle <+: char :: rest then [] else char :: before needle rest

def baseName (path : Text) : Text :=
  (path.reverse.takeWhile (· ≠ '/')).reverse

end Text

namespace OfflineExperiment

def dataSuffix : Text := "openss-data".toList
def infoSuffix : Text := "openss-info".toList
def dsosSuffix : Text := "openss-dsos".toList

structure DirEntry where
  name : Text
  plain : '/' ∉ name
  size : Nat

structure RawDir where
  path : Text
  entries : List DirEntry

namespace DirEntry

def isRawfile (entry : DirEntry) : Bool :=
  !(['-'] <+: entry.name) && dataSuffix <:+: entry.name || infoSuffix <:+: entry.name ||
    dsosSuffix <:+: entry.name

def executable (entry : DirEntry) : Text := entry.name.takeWhile (· ≠ '-')

end DirEntry

def RawDir.rawname (dir : RawDir) (entry : DirEntry) : Text := dir.path ++ '/' :: entry.name

def found (suffix : Text) (rawdirs : List RawDir) : List (RawDir × DirEntry) :=
  rawdirs.flatMap fun dir =>
    ((dir.entries.filter DirEntry.isRawfile).filter fun entry =>
      suffix <:+: entry.name && entry.size ≠ 0).map (dir, ·)

def listed (suffix : Text) (rawdirs : List RawDir) : List Text :=
  Text.set ((found suffix rawdirs).map fun (dir, entry) => dir.rawname entry)

structure Lists where
  infoList : List Text
  dataList : List Text
  dsosList : List Text
  executablesUsed : List Text

def lists (rawdirs : List RawDir) : Lists where
  infoList := listed infoSuffix rawdirs
  dataList := listed dataSuffix rawdirs
  dsosList := listed dsosSuffix rawdirs
  executablesUsed := Text.set ((found dataSuffix rawdirs).map fun (_, entry) => entry.executable)

def dataName (suffix rawname : Text) : Text :=
  Text.before ('.' :: suffix) rawname ++ '.' :: dataSuffix

structure Pass where
  executable : Text
  dataFiles : List Text
  infoFiles : List Text
  dsosFiles : List Text
deriving DecidableEq

namespace Lists

def dataFiles (lists : Lists) (executable : Text) : List Text :=
  lists.dataList.filter fun rawname => executable <:+: Text.baseName rawname

def infoFiles (lists : Lists) (executable : Text) : List Text :=
  (lists.infoList.filter (executable <:+: ·)).flatMap fun info =>
    (lists.dataList.filter (dataName infoSuffix info <:+: ·)).map fun _ => info

/-- The inner loop for one dsos file. A data file that is found is erased, and the
loop goes on from the erased element, which is undefined. -/
def eraseMatches (ts : Text) : List Text → Option (List Text)
  | [] => some []
  | rawname :: rest => if ts <:+: rawname then none else eraseMatches ts rest

def dsosFiles (lists : Lists) (executable : Text) : Option (List Text) :=
  Fallible.gather (fun dsos => eraseMatches (dataName dsosSuffix dsos) lists.dataList)
    (lists.dsosList.filter (executable <:+: ·))

def pass (lists : Lists) (executable : Text) : Option Pass :=
  (lists.dsosFiles executable).map fun dsosFiles =>
    ⟨executable, lists.dataFiles executable, lists.infoFiles executable, dsosFiles⟩

end Lists

namespace Pass

def rawfiles (pass : Pass) : List Text := pass.dataFiles ++ pass.infoFiles ++ pass.dsosFiles

def processData (pass : Pass) : List Text :=
  pass.rawfiles.filter ('.' :: dataSuffix <:+: ·)

end Pass

def getRawDataFiles (rawdirs : List RawDir) : Option (List Pass) :=
  (lists rawdirs).executablesUsed.mapM (lists rawdirs).pass

end OfflineExperiment

/-!
When each raw data file is converted once, with the files of its own stem. The
names of executables, and those of data files, are looked for as substrings.
-/

namespace Text

theorem mem_set {texts : List Text} {text : Text} : text ∈ set texts ↔ text ∈ texts := by
  rw [set, List.mem_mergeSort, List.mem_dedup]

theorem nodup_set (texts : List Text) : (set texts).Nodup :=
  (List.mergeSort_perm _ _).nodup_iff.mpr (List.nodup_dedup texts)

theorem baseName_append (path : Text) {tail : Text} (plain : '/' ∉ tail) :
    baseName (path ++ tail) = baseName path ++ tail := by
  have behind : ∀ char ∈ tail.reverse, decide (char ≠ '/') = true := by
    intro char member
    rw [List.mem_reverse] at member
    exact decide_eq_true fun slash => plain (slash ▸ member)
  rw [baseName, List.reverse_append, List.takeWhile_append_of_pos behind, List.reverse_append,
    List.reverse_reverse, ← baseName]

theorem baseName_slash (path : Text) {tail : Text} (plain : '/' ∉ tail) :
    baseName (path ++ '/' :: tail) = tail := by
  have ends : baseName (path ++ ['/']) = [] := by
    simp [baseName]
  rw [← List.singleton_append, ← List.append_assoc, baseName_append _ plain, ends, List.nil_append]

theorem baseName_suffix (path : Text) : baseName path <:+ path := by
  have ends := List.takeWhile_prefix (fun char => decide (char ≠ '/')) (l := path.reverse)
  rw [← List.reverse_suffix, List.reverse_reverse] at ends
  exact ends

end Text

namespace OfflineExperiment

def owner (rawname : Text) : Text := (Text.baseName rawname).takeWhile (· ≠ '-')

def SameStem (suffix rawname data : Text) : Prop :=
  ∃ stem, rawname = stem ++ '.' :: suffix ∧ data = stem ++ '.' :: dataSuffix

structure EachOnce (files : List Text) (wanted : Text → Prop) : Prop where
  once : files.Nodup
  exact : ∀ rawname, rawname ∈ files ↔ wanted rawname

namespace Lists

def Own (lists : Lists) (executable rawname : Text) : Prop :=
  rawname ∈ lists.dataList ∧ owner rawname = executable

def Accompanies (lists : Lists) (suffix executable rawname : Text) : Prop :=
  ∃ data, lists.Own executable data ∧ SameStem suffix rawname data

end Lists

structure TakesOwn (lists : Lists) (pass : Pass) : Prop where
  dataFiles : EachOnce pass.dataFiles (lists.Own pass.executable)
  infoFiles : EachOnce pass.infoFiles fun rawname =>
    rawname ∈ lists.infoList ∧ lists.Accompanies infoSuffix pass.executable rawname
  dsosFiles : EachOnce pass.dsosFiles fun rawname =>
    rawname ∈ lists.dsosList ∧ lists.Accompanies dsosSuffix pass.executable rawname
  processData : EachOnce pass.processData (lists.Own pass.executable)

structure ConvertedOnce (lists : Lists) (passes : List Pass) : Prop where
  distinct : (passes.map Pass.executable).Nodup
  covered : ∀ rawname ∈ lists.dataList, ∃ pass ∈ passes, pass.executable = owner rawname
  own : ∀ pass ∈ passes, TakesOwn lists pass

structure NamesApart (lists : Lists) (executable : Text) : Prop where
  executableFound : ∀ data ∈ lists.dataList, executable <:+: Text.baseName data → owner data = executable
  dataNamed : ∀ data, lists.Own executable data → '.' :: dataSuffix <:+: data
  infoFound : ∀ info ∈ lists.infoList, executable <:+: info →
    ((∃ data ∈ lists.dataList, dataName infoSuffix info <:+: data) ↔
      lists.Accompanies infoSuffix executable info)
  infoOnce : ∀ info ∈ lists.infoList, executable <:+: info →
    ∀ first ∈ lists.dataList, ∀ second ∈ lists.dataList,
      dataName infoSuffix info <:+: first → dataName infoSuffix info <:+: second → first = second
  infoNamed : ∀ info ∈ lists.infoList, lists.Accompanies infoSuffix executable info →
    ¬ '.' :: dataSuffix <:+: info
  dsosMissing : ∀ dsos ∈ lists.dsosList, ¬ lists.Accompanies dsosSuffix executable dsos
  dsosNotFound : ∀ dsos ∈ lists.dsosList, executable <:+: dsos →
    ∀ data ∈ lists.dataList, ¬ dataName dsosSuffix dsos <:+: data

theorem mem_found {suffix : Text} {rawdirs : List RawDir} {dir : RawDir} {entry : DirEntry} :
    (dir, entry) ∈ found suffix rawdirs ↔ dir ∈ rawdirs ∧ entry ∈ dir.entries ∧
      entry.isRawfile = true ∧ suffix <:+: entry.name ∧ entry.size ≠ 0 := by
  simp only [found, List.mem_flatMap, mem_map, mem_filter, Bool.and_eq_true,
    decide_eq_true_eq, Prod.mk.injEq]
  constructor
  · rintro ⟨_, member, _, ⟨⟨inDir, picked⟩, named, filled⟩, rfl, rfl⟩
    exact ⟨member, inDir, picked, named, filled⟩
  · rintro ⟨member, inDir, picked, named, filled⟩
    exact ⟨dir, member, entry, ⟨⟨inDir, picked⟩, named, filled⟩, rfl, rfl⟩

theorem mem_listed {suffix rawname : Text} {rawdirs : List RawDir} : rawname ∈ listed suffix rawdirs ↔
      ∃ dir entry, (dir, entry) ∈ found suffix rawdirs ∧ dir.rawname entry = rawname := by
  rw [listed, Text.mem_set, mem_map]
  exact ⟨fun ⟨(dir, entry), member, same⟩ => ⟨dir, entry, member, same⟩,
    fun ⟨dir, entry, member, same⟩ => ⟨(dir, entry), member, same⟩⟩

theorem owner_rawname (dir : RawDir) (entry : DirEntry) : owner (dir.rawname entry) = entry.executable := by
  rw [owner, RawDir.rawname, Text.baseName_slash _ entry.plain, DirEntry.executable]

theorem mem_executablesUsed {rawdirs : List RawDir} {executable : Text} :
    executable ∈ (lists rawdirs).executablesUsed ↔
      ∃ rawname ∈ (lists rawdirs).dataList, owner rawname = executable := by
  simp only [lists, Text.mem_set, mem_listed, mem_map]
  constructor
  · rintro ⟨⟨dir, entry⟩, member, rfl⟩
    exact ⟨dir.rawname entry, ⟨dir, entry, member, rfl⟩, owner_rawname dir entry⟩
  · rintro ⟨_, ⟨dir, entry, member, rfl⟩, rfl⟩
    exact ⟨(dir, entry), member, (owner_rawname dir entry).symm⟩

theorem takeWhile_append_stop {stop : Char} (text tail : Text) :
    (text ++ stop :: tail).takeWhile (· ≠ stop) = text.takeWhile (· ≠ stop) := by
  induction text with
  | nil => simp
  | cons char rest ih =>
    rw [List.cons_append, List.takeWhile_cons, List.takeWhile_cons, ih]

theorem owner_stem (stem : Text) {kind : Text} (plain : '/' ∉ kind) :
    owner (stem ++ '.' :: ("openss".toList ++ '-' :: kind)) =
      (Text.baseName stem ++ '.' :: "openss".toList).takeWhile (· ≠ '-') := by
  have noSlash : '/' ∉ '.' :: ("openss".toList ++ '-' :: kind) := by
    simp [plain]
  rw [owner, Text.baseName_append _ noSlash, ← List.cons_append, ← List.append_assoc, takeWhile_append_stop]

theorem owner_sameStem {info data : Text} (same : SameStem infoSuffix info data) :
    owner info = owner data := by
  obtain ⟨stem, rfl, rfl⟩ := same
  exact (owner_stem stem (by decide)).trans (owner_stem stem (by decide)).symm

theorem owner_infix (rawname : Text) : owner rawname <:+: rawname :=
  ((List.takeWhile_prefix _).isInfix).trans (Text.baseName_suffix rawname).isInfix

theorem nodup_map_const {Item Value : Type} (value : Value) {items : List Item} (distinct : items.Nodup) :
    (items.map fun _ => value).Nodup ↔ ∀ first ∈ items, ∀ second ∈ items, first = second := by
  match items with
  | [] => simp
  | [_] => simp
  | head :: next :: _ =>
    refine iff_of_false (by simp) fun same => ?_
    have equal := same head List.mem_cons_self next (by simp)
    rw [List.nodup_cons] at distinct
    exact distinct.1 (equal ▸ List.mem_cons_self)

section

variable {lists : Lists} {executable rawname : Text}

theorem mem_dataFiles : rawname ∈ lists.dataFiles executable ↔
      rawname ∈ lists.dataList ∧ executable <:+: Text.baseName rawname := by
  rw [Lists.dataFiles, mem_filter, decide_eq_true_eq]

theorem mem_infoFiles : rawname ∈ lists.infoFiles executable ↔
      rawname ∈ lists.infoList ∧ executable <:+: rawname ∧
        ∃ data ∈ lists.dataList, dataName infoSuffix rawname <:+: data := by
  simp only [Lists.infoFiles, List.mem_flatMap, mem_map, mem_filter, decide_eq_true_eq]
  constructor
  · rintro ⟨info, ⟨member, here⟩, data, ⟨listed, matched⟩, rfl⟩
    exact ⟨member, here, data, listed, matched⟩
  · rintro ⟨member, here, data, listed, matched⟩
    exact ⟨rawname, ⟨member, here⟩, data, ⟨listed, matched⟩, rfl⟩

theorem nodup_infoFiles (infos : lists.infoList.Nodup) (datas : lists.dataList.Nodup) :
    (lists.infoFiles executable).Nodup ↔ ∀ info ∈ lists.infoList, executable <:+: info →
        ∀ first ∈ lists.dataList, ∀ second ∈ lists.dataList,
          dataName infoSuffix info <:+: first → dataName infoSuffix info <:+: second → first = second := by
  have apart : (lists.infoList.filter (executable <:+: ·)).Pairwise (Function.onFun List.Disjoint fun info =>
        (lists.dataList.filter (dataName infoSuffix info <:+: ·)).map fun _ => info) := by
    refine (infos.filter _).imp fun different => ?_
    intro name inFirst inSecond
    obtain ⟨_, _, rfl⟩ := mem_map.mp inFirst
    obtain ⟨_, _, same⟩ := mem_map.mp inSecond
    exact different same.symm
  rw [Lists.infoFiles, List.nodup_flatMap, and_iff_left apart]
  simp only [nodup_map_const _ (datas.filter _), mem_filter, decide_eq_true_eq]
  constructor
  · intro once info member here first inFirst second inSecond one two
    exact once info ⟨member, here⟩ first ⟨inFirst, one⟩ second ⟨inSecond, two⟩
  · intro once info member first inFirst second inSecond
    exact once info member.1 member.2 first inFirst.1 second inSecond.1 inFirst.2 inSecond.2

theorem eraseMatches_eq_some {ts : Text} {datas taken : List Text} :
    Lists.eraseMatches ts datas = some taken ↔ taken = [] ∧ ∀ data ∈ datas, ¬ ts <:+: data := by
  induction datas with
  | nil => simp [Lists.eraseMatches, eq_comm]
  | cons data rest ih =>
    rw [Lists.eraseMatches]
    by_cases matched : ts <:+: data
    · simp [matched]
    · rw [if_neg matched, ih, List.forall_mem_cons, and_iff_right matched]

theorem dsosFiles_eq_some {taken : List Text} : lists.dsosFiles executable = some taken ↔ taken = [] ∧
      ∀ dsos ∈ lists.dsosList, executable <:+: dsos →
        ∀ data ∈ lists.dataList, ¬ dataName dsosSuffix dsos <:+: data := by
  have empty : ∀ (dsos : Text) taken,
      Lists.eraseMatches (dataName dsosSuffix dsos) lists.dataList = some taken → taken = [] :=
    fun dsos taken ran => (eraseMatches_eq_some.mp ran).1
  rw [Lists.dsosFiles, Fallible.gather_empty empty]
  simp only [eraseMatches_eq_some, true_and, mem_filter, decide_eq_true_eq, and_imp]

theorem infix_of_accompanies (follows : lists.Accompanies infoSuffix executable rawname) :
    executable <:+: rawname := by
  obtain ⟨data, ⟨-, rfl⟩, same⟩ := follows
  rw [← owner_sameStem same]
  exact owner_infix rawname

theorem mem_processData {pass : Pass} (none : pass.dsosFiles = []) : rawname ∈ pass.processData ↔
      (rawname ∈ pass.dataFiles ∨ rawname ∈ pass.infoFiles) ∧ '.' :: dataSuffix <:+: rawname := by
  rw [Pass.processData, Pass.rawfiles, none, List.append_nil, mem_filter, List.mem_append,
    decide_eq_true_eq]

def Lists.undisturbed (lists : Lists) (executable : Text) : Pass :=
  ⟨executable, lists.dataFiles executable, lists.infoFiles executable, []⟩

theorem pass_eq_some {pass : Pass} : lists.pass executable = some pass ↔ pass = lists.undisturbed executable ∧
      ∀ dsos ∈ lists.dsosList, executable <:+: dsos →
        ∀ data ∈ lists.dataList, ¬ dataName dsosSuffix dsos <:+: data := by
  rw [Lists.pass, Option.map_eq_some_iff]
  constructor
  · rintro ⟨taken, found, rfl⟩
    obtain ⟨rfl, missing⟩ := dsosFiles_eq_some.mp found
    exact ⟨rfl, missing⟩
  · rintro ⟨rfl, missing⟩
    exact ⟨[], dsosFiles_eq_some.mpr ⟨rfl, missing⟩, rfl⟩

theorem own_found (own : lists.Own executable rawname) :
    rawname ∈ lists.dataList ∧ executable <:+: Text.baseName rawname := by
  obtain ⟨listed, rfl⟩ := own
  exact ⟨listed, (List.takeWhile_prefix _).isInfix⟩

theorem namesApart_of_takesOwn (infos : lists.infoList.Nodup) (datas : lists.dataList.Nodup)
    (own : TakesOwn lists (lists.undisturbed executable))
    (missing : ∀ dsos ∈ lists.dsosList, executable <:+: dsos →
      ∀ data ∈ lists.dataList, ¬ dataName dsosSuffix dsos <:+: data) : NamesApart lists executable where
  executableFound data listed here :=
    ((own.dataFiles.exact data).mp (mem_dataFiles.mpr ⟨listed, here⟩)).2
  dataNamed data owned := ((mem_processData rfl).mp ((own.processData.exact data).mpr owned)).2
  infoFound info listed here := by
    have exact := own.infoFiles.exact info
    rw [Lists.undisturbed, mem_infoFiles, and_iff_right listed, and_iff_right listed,
      and_iff_right here] at exact
    exact exact
  infoOnce := (nodup_infoFiles infos datas).mp own.infoFiles.once
  infoNamed info listed follows named := by
    have taken := (own.infoFiles.exact info).mpr ⟨listed, follows⟩
    have converted := (mem_processData rfl).mpr ⟨Or.inr taken, named⟩
    have again := (own.dataFiles.exact info).mpr ((own.processData.exact info).mp converted)
    have once := own.processData.once
    rw [Pass.processData, Pass.rawfiles, List.filter_append, List.filter_append] at once
    have apart := (List.nodup_append'.mp (List.nodup_append'.mp once).1).2.2
    exact apart (mem_filter.mpr ⟨again, decide_eq_true named⟩)
      (mem_filter.mpr ⟨taken, decide_eq_true named⟩)
  dsosMissing dsos listed follows :=
    absurd ((own.dsosFiles.exact dsos).mpr ⟨listed, follows⟩) List.not_mem_nil
  dsosNotFound := missing

theorem takesOwn_of_namesApart (infos : lists.infoList.Nodup) (datas : lists.dataList.Nodup)
    (apart : NamesApart lists executable) : TakesOwn lists (lists.undisturbed executable) := by
  have dataExact : ∀ rawname, rawname ∈ lists.dataFiles executable ↔ lists.Own executable rawname := by
    intro rawname
    rw [mem_dataFiles]
    exact ⟨fun found => ⟨found.1, apart.executableFound rawname found.1 found.2⟩, own_found⟩
  have infoExact : ∀ rawname, rawname ∈ lists.infoFiles executable ↔
      rawname ∈ lists.infoList ∧ lists.Accompanies infoSuffix executable rawname := by
    intro rawname
    rw [mem_infoFiles]
    constructor
    · rintro ⟨listed, here, found⟩
      exact ⟨listed, (apart.infoFound rawname listed here).mp found⟩
    · rintro ⟨listed, follows⟩
      have here := infix_of_accompanies follows
      exact ⟨listed, here, (apart.infoFound rawname listed here).mpr follows⟩
  have dataOnce : (lists.dataFiles executable).Nodup := datas.filter _
  have infoOnce := (nodup_infoFiles infos datas).mpr apart.infoOnce
  refine ⟨⟨dataOnce, dataExact⟩, ⟨infoOnce, infoExact⟩, ⟨List.nodup_nil, fun dsos => ?_⟩,
    ⟨?_, fun rawname => ?_⟩⟩
  · refine iff_of_false List.not_mem_nil ?_
    rintro ⟨listed, follows⟩
    exact apart.dsosMissing dsos listed follows
  · -- A file of both loops would be an info file that is named as a data file.
    rw [Pass.processData, Pass.rawfiles, Lists.undisturbed, List.append_nil, List.filter_append]
    refine (dataOnce.filter _).append (infoOnce.filter _) ?_
    intro rawname inDatas inInfos
    rw [mem_filter, decide_eq_true_eq] at inDatas inInfos
    obtain ⟨listed, follows⟩ := (infoExact rawname).mp inInfos.1
    exact apart.infoNamed rawname listed follows inInfos.2
  · rw [mem_processData rfl]
    constructor
    · rintro ⟨taken | taken, named⟩
      · exact (dataExact rawname).mp taken
      · obtain ⟨listed, follows⟩ := (infoExact rawname).mp taken
        exact absurd named (apart.infoNamed rawname listed follows)
    · intro own
      exact ⟨Or.inl ((dataExact rawname).mpr own), apart.dataNamed rawname own⟩

end

theorem getRawDataFiles_eq_none (rawdirs : List RawDir) {executable dsos data : Text}
    (used : executable ∈ (lists rawdirs).executablesUsed)
    (listed : dsos ∈ (lists rawdirs).dsosList) (here : executable <:+: dsos)
    (other : data ∈ (lists rawdirs).dataList) (found : dataName dsosSuffix dsos <:+: data) :
    getRawDataFiles rawdirs = none := by
  rw [Option.eq_none_iff_forall_ne_some]
  intro passes ran
  obtain ⟨pass, -, gives⟩ := Fallible.value_of_mapM ran executable used
  exact (pass_eq_some.mp gives).2 dsos listed here data other found

def dataOfA : DirEntry := ⟨"a-host-1.openss-data".toList, by decide, 2048⟩
def dsosOfA : DirEntry := ⟨"a-host-1.openss-dsos".toList, by decide, 2048⟩
def dirOfA : RawDir := ⟨"/tmp/openss-rawdata-1".toList, [dataOfA, dsosOfA]⟩

end OfflineExperiment

end OpenSpeedShop
