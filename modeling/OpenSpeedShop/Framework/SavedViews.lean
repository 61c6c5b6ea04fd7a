import OpenSpeedShop.Library.Sql
import Mathlib.Algebra.Ring.Int.Defs
import Mathlib.Data.List.Infix

/-!
The saved views of an experiment, and the removal of those that are of no use to
another session.
-/

namespace OpenSpeedShop

namespace SavedViews

structure ViewRow where
  id : Int
  viewCmd : Option (List Char)
  viewData : Option (List UInt8)
deriving DecidableEq

/-- The Views table, in the order of a scan. The identifiers are primary keys that SQLite
has given out, from one on, and none is too large to be read as an `int`. -/
structure Views where
  rows : List ViewRow
  distinct : (rows.map ViewRow.id).Nodup
  positive : ∀ row ∈ rows, 0 < row.id
  small : ∀ row ∈ rows, row.id < 2 ^ 31

/-- `command.compare(0, arg.size(), arg) == 0` -/
def beginsWith (arg command : List Char) : Bool := command.take arg.length = arg

def headerMatches (viewCmdArg : List Char) (exactMatch : Bool) (row : ViewRow) : Bool :=
  match row.viewCmd with
  | none => false
  | some viewCmdInDb =>
    if exactMatch then viewCmdInDb = viewCmdArg else beginsWith viewCmdArg viewCmdInDb

def searchForViewCommandHeaderMatch (rows : List ViewRow) (viewCmdArg : List Char) (exactMatch : Bool) : Int :=
  match rows.find? (headerMatches viewCmdArg exactMatch) with
  | none => -1
  | some row => row.id

/-- `DELETE FROM Views WHERE id = ?;` -/
def removeViewTableEntry (rows : List ViewRow) (viewsId : Int) : List ViewRow :=
  Sql.deleteWhere (fun row => Sql.equal (some row.id) (some viewsId)) rows

def cview : List Char := ['c', 'v', 'i', 'e', 'w']

def cviewcluster : List Char := cview ++ ['c', 'l', 'u', 's', 't', 'e', 'r']

def cviewcreate : List Char := cview ++ ['c', 'r', 'e', 'a', 't', 'e']

def nonCrossSessionCmds : List (List Char) := [cviewcluster, cviewcreate, cview]

def removeMatch (viewCmdInDb : List Char) (rows : List ViewRow) (viewCmdArg : List Char) : List ViewRow :=
  if beginsWith viewCmdArg viewCmdInDb then
    let idOfMatch := searchForViewCommandHeaderMatch rows viewCmdArg false
    if idOfMatch > 0 then removeViewTableEntry rows idOfMatch else rows
  else rows

def removeMatches (rows : List ViewRow) (viewCmdInDb : List Char) : List ViewRow :=
  nonCrossSessionCmds.foldl (removeMatch viewCmdInDb) rows

def removeNonCrossSessionViews (views : Views) : Option (List ViewRow) := do
  let allCmdsInDb ← views.rows.mapM ViewRow.viewCmd
  some (allCmdsInDb.foldl removeMatches views.rows)

end SavedViews

/-!
Every command that begins with "cview" has at least one such row removed, the first
there is: there are as many commands as rows, so that none is left.
-/

namespace SavedViews

theorem beginsWith_iff {arg command : List Char} : beginsWith arg command = true ↔ arg <+: command := by
  rw [beginsWith, decide_eq_true_iff, List.prefix_iff_eq_take, eq_comm]

def ViewRow.isCview (row : ViewRow) : Bool := headerMatches cview false row

variable {row : ViewRow}

theorem isCview_iff : row.isCview = true ↔ ∃ command, row.viewCmd = some command ∧ cview <+: command := by
  rw [ViewRow.isCview, headerMatches]
  cases row.viewCmd with
  | none => simp
  | some command => simp [beginsWith_iff]

variable {arg : List Char}

theorem begins_of_known (member : arg ∈ nonCrossSessionCmds) : cview <+: arg := by
  rcases List.mem_cons.mp member with rfl | member
  · exact List.prefix_append _ _
  · rcases List.mem_cons.mp member with rfl | member
    · exact List.prefix_append _ _
    · exact List.mem_singleton.mp member ▸ List.prefix_refl _

theorem isCview_of_matches (member : arg ∈ nonCrossSessionCmds)
    (found : headerMatches arg false row = true) : row.isCview = true := by
  rw [headerMatches] at found
  cases known : row.viewCmd with
  | none => simp [known] at found
  | some command =>
    simp only [known, Bool.false_eq_true, if_false, beginsWith_iff] at found
    exact isCview_iff.mpr ⟨command, known, (begins_of_known member).trans found⟩

variable {rows left final : List ViewRow}

/-- Some rows are gone, none of them one that another session can use. -/
structure Purged (rows left : List ViewRow) : Prop where
  sublist : left.Sublist rows
  others : left.filter (!·.isCview) = rows.filter (!·.isCview)

theorem Purged.refl (rows : List ViewRow) : Purged rows rows := ⟨List.Sublist.refl _, rfl⟩

theorem Purged.trans (first : Purged rows left) (second : Purged left final) : Purged rows final :=
  ⟨second.sublist.trans first.sublist, second.others.trans first.others⟩

theorem Purged.distinct (purged : Purged rows left) (distinct : (rows.map ViewRow.id).Nodup) :
    (left.map ViewRow.id).Nodup :=
  distinct.sublist (purged.sublist.map _)

theorem Purged.count_le (purged : Purged rows left) :
    left.countP ViewRow.isCview ≤ rows.countP ViewRow.isCview :=
  purged.sublist.countP_le

theorem removeViewTableEntry_eq (distinct : (rows.map ViewRow.id).Nodup)
    (member : row ∈ rows) : removeViewTableEntry rows row.id = rows.erase row := by
  rw [(List.Nodup.of_map _ distinct).erase_eq_filter, removeViewTableEntry, Sql.deleteWhere]
  refine List.filter_congr fun other among => ?_
  have same : other.id = row.id ↔ other = row :=
    ⟨fun equal => List.inj_on_of_nodup_map distinct among member equal, congrArg ViewRow.id⟩
  simp [same, bne, beq_eq_decide]

theorem purged_erase (rows : List ViewRow) (gone : row.isCview = true)
    (distinct : rows.Nodup) : Purged rows (rows.erase row) := by
  refine ⟨List.erase_sublist, ?_⟩
  rw [distinct.erase_eq_filter, List.filter_filter]
  refine List.filter_congr fun other _ => ?_
  by_cases same : other = row
  · simp [same, gone]
  · simp [same]

section

variable (known : arg ∈ nonCrossSessionCmds) (distinct : (rows.map ViewRow.id).Nodup)
  (positive : ∀ row ∈ rows, 0 < row.id)
include known distinct positive

theorem removeMatch_cases {command : List Char} (begins : beginsWith arg command = true) :
    ((∀ row ∈ rows, headerMatches arg false row = false) ∧ removeMatch command rows arg = rows) ∨
      ∃ row ∈ rows, row.isCview = true ∧ removeMatch command rows arg = rows.erase row := by
  rw [removeMatch, if_pos begins, searchForViewCommandHeaderMatch]
  cases found : rows.find? (headerMatches arg false) with
  | none =>
    refine .inl ⟨fun row member => ?_, if_neg (by decide)⟩
    exact Bool.eq_false_iff.mpr (List.find?_eq_none.mp found row member)
  | some row =>
    have member := List.mem_of_find?_eq_some found
    refine .inr ⟨row, member, isCview_of_matches known (List.find?_some found), ?_⟩
    exact (if_pos (positive row member)).trans (removeViewTableEntry_eq distinct member)

theorem removeMatch_purged (command : List Char) : Purged rows (removeMatch command rows arg) := by
  by_cases begins : beginsWith arg command = true
  · rcases removeMatch_cases known distinct positive begins with ⟨_, same⟩ | ⟨row, _, gone, erased⟩
    · rw [same]
      exact Purged.refl rows
    · rw [erased]
      exact purged_erase rows gone (List.Nodup.of_map _ distinct)
  · rw [removeMatch, if_neg begins]
    exact Purged.refl rows

end

theorem removeMatch_count (distinct : (rows.map ViewRow.id).Nodup)
    (positive : ∀ row ∈ rows, 0 < row.id) {command : List Char} (begins : beginsWith cview command = true) :
    (removeMatch command rows cview).countP ViewRow.isCview ≤ rows.countP ViewRow.isCview - 1 := by
  rcases removeMatch_cases (by simp [nonCrossSessionCmds]) distinct positive begins with
    ⟨none, same⟩ | ⟨row, member, gone, erased⟩
  · have zero : rows.countP ViewRow.isCview = 0 :=
      List.countP_eq_zero.mpr fun row member => Bool.eq_false_iff.mp (none row member)
    rw [same, zero]
  · have whole := (List.perm_cons_erase member).countP_eq ViewRow.isCview
    rw [List.countP_cons, if_pos gone] at whole
    rw [erased, whole]
    exact Nat.le_refl _

theorem removeMatches_purged (distinct : (rows.map ViewRow.id).Nodup)
    (positive : ∀ row ∈ rows, 0 < row.id) (command : List Char) :
    Purged rows (removeMatches rows command) ∧ (beginsWith cview command = true →
      (removeMatches rows command).countP ViewRow.isCview ≤ rows.countP ViewRow.isCview - 1) := by
  have knownCluster : cviewcluster ∈ nonCrossSessionCmds := by simp [nonCrossSessionCmds]
  have knownCreate : cviewcreate ∈ nonCrossSessionCmds := by simp [nonCrossSessionCmds]
  have known : cview ∈ nonCrossSessionCmds := by simp [nonCrossSessionCmds]
  have first := removeMatch_purged knownCluster distinct positive command
  have second := removeMatch_purged knownCreate (first.distinct distinct)
    (fun row member => positive row (first.sublist.mem member)) command
  have both := first.trans second
  have distinctBoth := both.distinct distinct
  have positiveBoth := fun row member => positive row (both.sublist.mem member)
  have third := removeMatch_purged known distinctBoth positiveBoth command
  refine ⟨both.trans third, fun begins => ?_⟩
  have fewer := removeMatch_count distinctBoth positiveBoth begins
  have most := both.count_le
  exact Nat.le_trans fewer (Nat.sub_le_sub_right most 1)

theorem removeAll_purged (commands : List (List Char)) : ∀ {rows : List ViewRow},
    (rows.map ViewRow.id).Nodup → (∀ row ∈ rows, 0 < row.id) →
      Purged rows (commands.foldl removeMatches rows) ∧
        (commands.foldl removeMatches rows).countP ViewRow.isCview ≤
          rows.countP ViewRow.isCview - commands.countP (beginsWith cview) := by
  induction commands with
  | nil => exact fun _ _ => ⟨Purged.refl _, Nat.le_refl _⟩
  | cons command rest ih =>
    intro rows distinct positive
    obtain ⟨one, fewer⟩ := removeMatches_purged distinct positive command
    obtain ⟨more, count⟩ := ih (one.distinct distinct) fun row member => positive row (one.sublist.mem member)
    refine ⟨one.trans more, Nat.le_trans count ?_⟩
    have most := one.count_le
    rw [List.countP_cons]
    by_cases begins : beginsWith cview command = true
    · have less := fewer begins
      rw [if_pos begins]
      omega
    · rw [if_neg begins]
      omega

theorem mapM_viewCmd (known : ∀ row ∈ rows, row.viewCmd ≠ none) :
    ∃ commands, rows.mapM ViewRow.viewCmd = some commands ∧
      commands.countP (beginsWith cview) = rows.countP ViewRow.isCview := by
  induction rows with
  | nil => exact ⟨[], rfl, rfl⟩
  | cons row rest ih =>
    obtain ⟨commands, read, count⟩ := ih fun other member =>
      known other (List.mem_cons_of_mem _ member)
    obtain ⟨command, own⟩ := Option.ne_none_iff_exists'.mp (known row List.mem_cons_self)
    refine ⟨command :: commands, by simp [List.mapM_cons, own, read], ?_⟩
    have same : row.isCview = beginsWith cview command := by
      simp [ViewRow.isCview, headerMatches, own]
    rw [List.countP_cons, List.countP_cons, count, same]

/-- The rows whose command does not begin with "cview" are left as they were, and no others. -/
theorem removeNonCrossSessionViews_exact (views : Views)
    (known : ∀ row ∈ views.rows, row.viewCmd ≠ none) :
    removeNonCrossSessionViews views =
      some (views.rows.filter fun row => !row.viewCmd.any cview.isPrefixOf) := by
  obtain ⟨commands, read, count⟩ := mapM_viewCmd known
  obtain ⟨purged, none⟩ := removeAll_purged commands views.distinct views.positive
  rw [count, Nat.sub_self, Nat.le_zero, List.countP_eq_zero] at none
  have all : (commands.foldl removeMatches views.rows).filter (!·.isCview) =
      commands.foldl removeMatches views.rows :=
    List.filter_eq_self.mpr fun row member => by simp [none row member]
  have others := purged.others
  rw [all] at others
  rw [removeNonCrossSessionViews, read, Option.bind_eq_bind, Option.bind_some, others]
  refine congrArg some (List.filter_congr fun row _ => ?_)
  have same : row.isCview = row.viewCmd.any cview.isPrefixOf := by
    rw [Bool.eq_iff_iff, isCview_iff]
    cases row.viewCmd <;> simp
  rw [same]

def fourViews : Views where
  rows := [⟨1, some cviewcluster, none⟩, ⟨2, some cview, none⟩, ⟨3, some ['e', 'x', 'p'], none⟩,
    ⟨4, some cview, none⟩]
  distinct := by decide
  positive := by decide
  small := by decide

theorem removeNonCrossSessionViews_fourViews :
    removeNonCrossSessionViews fourViews =
      some (fourViews.rows.filter fun row => !row.viewCmd.any cview.isPrefixOf) :=
  removeNonCrossSessionViews_exact fourViews (by decide)

end SavedViews

end OpenSpeedShop
