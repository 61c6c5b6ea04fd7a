import OpenSpeedShop.Framework.ExtentGroup

/-!
Entries of a database, and tables that hold the extents of objects by groups.
-/

namespace OpenSpeedShop

abbrev DatabasePtr := Nat

structure Entry where
  dmDatabase : DatabasePtr
  dmEntry : Int
deriving DecidableEq

structure ExtentTable (Group Object : Type) where
  dmExtents : Group → Option ExtentGroup
  dmExtentToObject : Group → Option (List Object)

namespace ExtentTable

variable {Group Object : Type}

section

variable [DecidableEq Group]

def empty : ExtentTable Group Object := ⟨fun _ => none, fun _ => none⟩

def addExtent (table : ExtentTable Group Object) (group : Group) (object : Object)
    (extent : Extent) : ExtentTable Group Object where
  dmExtents := Function.update table.dmExtents group
    (some (((table.dmExtents group).getD (ExtentGroup.new 0)).pushBack extent))
  dmExtentToObject := Function.update table.dmExtentToObject group
    (some ((table.dmExtentToObject group).getD [] ++ [object]))

def removeExtents (table : ExtentTable Group Object) (group : Group) : ExtentTable Group Object where
  dmExtents := Function.update table.dmExtents group none
  dmExtentToObject := Function.update table.dmExtentToObject group none

def setExtents (table : ExtentTable Group Object) (group : Group) (extents : ExtentGroup) :
    ExtentTable Group Object :=
  { table with dmExtents := Function.update table.dmExtents group (some extents) }

def getExtents (table : ExtentTable Group Object) (group : Group) : ExtentGroup :=
  (table.dmExtents group).getD (ExtentGroup.new 0)

def getObject (table : ExtentTable Group Object) (group : Group) (index : Nat) : Option Object := do
  let objects ← table.dmExtentToObject group
  objects[index]?

end

structure Caches (table : ExtentTable Group Object) (group : Group)
    (pairs : List (Object × Extent)) : Prop where
  extents : (table.getExtents group).extents = pairs.map Prod.snd
  objects : (table.dmExtentToObject group).getD [] = pairs.map Prod.fst
  consistent : ExtentGroup.Consistent (table.getExtents group)

theorem caches_empty (group : Group) : Caches (empty : ExtentTable Group Object) group [] :=
  ⟨rfl, rfl, ExtentGroup.consistent_new 0⟩

variable {table : ExtentTable Group Object} {pairs : List (Object × Extent)} {group : Group}

theorem Caches.addExtent [DecidableEq Group]
    (caches : table.Caches group pairs) (object : Object) (extent : Extent) :
    (table.addExtent group object extent).Caches group (pairs ++ [(object, extent)]) := by
  have grown : (table.addExtent group object extent).getExtents group =
      (table.getExtents group).pushBack extent := by
    simp [getExtents, ExtentTable.addExtent]
  constructor
  · rw [grown, ExtentGroup.pushBack, caches.extents, List.map_append]
    rfl
  · simp [ExtentTable.addExtent, caches.objects]
  · rw [grown]
    exact caches.consistent.pushBack extent

def SameGroup (before after : ExtentTable Group Object) (group : Group) : Prop :=
  after.dmExtents group = before.dmExtents group ∧ after.dmExtentToObject group = before.dmExtentToObject group

theorem SameGroup.refl (table : ExtentTable Group Object) (group : Group) :
    SameGroup table table group := ⟨rfl, rfl⟩

theorem SameGroup.trans {first second third : ExtentTable Group Object}
    (one : SameGroup first second group) (two : SameGroup second third group) : SameGroup first third group :=
  ⟨two.1.trans one.1, two.2.trans one.2⟩

variable {group other : Group}

theorem sameGroup_addExtent [DecidableEq Group] (table : ExtentTable Group Object)
    (different : other ≠ group) (object : Object) (extent : Extent) :
    SameGroup table (table.addExtent group object extent) other :=
  ⟨Function.update_of_ne different _ _, Function.update_of_ne different _ _⟩

theorem Caches.of_sameGroup {before after : ExtentTable Group Object} (caches : before.Caches group pairs)
    (same : SameGroup before after group) : after.Caches group pairs := by
  have extents : after.getExtents group = before.getExtents group := by
    simp only [getExtents, same.1]
  exact ⟨extents ▸ caches.extents, same.2 ▸ caches.objects, extents ▸ caches.consistent⟩

theorem Caches.unique {first second : List (Object × Extent)} (one : table.Caches group first)
    (two : table.Caches group second) : first = second := by
  have objects := one.objects.symm.trans two.objects
  have extents := one.extents.symm.trans two.extents
  rw [← List.zip_unzip first, ← List.zip_unzip second]
  simp only [List.unzip_eq_map, objects, extents]

theorem Caches.isEmpty (caches : table.Caches group pairs) :
    (table.getExtents group).extents.isEmpty = pairs.isEmpty := by
  rw [caches.extents]
  cases pairs <;> rfl

theorem Caches.getObject (caches : table.Caches group pairs) (index : Nat) :
    table.getObject group index = (pairs[index]?).map Prod.fst := by
  have objects := caches.objects
  rw [← List.getElem?_map, ← objects]
  cases stored : table.dmExtentToObject group with
  | none => simp [ExtentTable.getObject, stored]
  | some list => simp [ExtentTable.getObject, stored]

theorem Caches.setExtents [DecidableEq Group] (caches : table.Caches group pairs) {next : ExtentGroup}
    (same : next.extents = (table.getExtents group).extents)
    (consistent : ExtentGroup.Consistent next) : (table.setExtents group next).Caches group pairs := by
  have here : (table.setExtents group next).getExtents group = next := by
    simp [ExtentTable.setExtents, getExtents]
  exact ⟨by rw [here, same, caches.extents], caches.objects, by rw [here]; exact consistent⟩

theorem sameGroup_setExtents [DecidableEq Group] (table : ExtentTable Group Object)
    (different : other ≠ group) (next : ExtentGroup) : SameGroup table (table.setExtents group next) other :=
  ⟨Function.update_of_ne different _ _, rfl⟩

theorem caches_removeExtents [DecidableEq Group] (table : ExtentTable Group Object) (group : Group) :
    (table.removeExtents group).Caches group [] := by
  constructor
  · simp [ExtentTable.removeExtents, getExtents, ExtentGroup.new]
  · simp [ExtentTable.removeExtents]
  · have here : (table.removeExtents group).getExtents group = ExtentGroup.new 0 := by
      simp [ExtentTable.removeExtents, getExtents]
    rw [here]
    exact ExtentGroup.consistent_new 0

theorem sameGroup_removeExtents [DecidableEq Group] (table : ExtentTable Group Object)
    (different : other ≠ group) : SameGroup table (table.removeExtents group) other :=
  ⟨Function.update_of_ne different _ _, Function.update_of_ne different _ _⟩

section

variable [DecidableEq Group] {group : Group}

variable {entries : List (Object × Extent)}

theorem Caches.foldl_addExtent : ∀ {table : ExtentTable Group Object} {pairs : List (Object × Extent)},
    table.Caches group pairs →
    (entries.foldl (fun table entry => table.addExtent group entry.1 entry.2) table).Caches group
      (pairs ++ entries) := by
  induction entries with
  | nil =>
    intro table pairs caches
    simpa using caches
  | cons entry rest ih =>
    intro table pairs caches
    have added := ih (caches.addExtent entry.1 entry.2)
    simpa using added

theorem sameGroup_foldl_addExtent {other : Group} (different : other ≠ group)
    : ∀ table : ExtentTable Group Object, SameGroup table
      (entries.foldl (fun table entry => table.addExtent group entry.1 entry.2) table) other := by
  induction entries with
  | nil => exact fun table => SameGroup.refl table other
  | cons entry rest ih =>
    exact fun table => (sameGroup_addExtent table different entry.1 entry.2).trans (ih _)

end

end ExtentTable

end OpenSpeedShop
