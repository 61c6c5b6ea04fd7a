import Mathlib.Data.List.Basic

/-!
Blocks of items stored back to back. Each item has a mark, which is blank
except at the first item of a block.
-/

namespace MarkedBlocks

variable {Item Mark : Type*}

structure Block (Item Mark : Type*) where
  head : Item
  tail : List Item
  mark : Mark

namespace Block

def items (block : Block Item Mark) : List Item := block.head :: block.tail

def marked (blank : Mark) (block : Block Item Mark) : List (Item × Mark) :=
  (block.head, block.mark) :: block.tail.map (·, blank)

def remark (mark : Mark) (block : Block Item Mark) : Block Item Mark := { block with mark := mark }

@[simp] theorem items_remark (mark : Mark) (block : Block Item Mark) :
    (block.remark mark).items = block.items := rfl

@[simp] theorem mark_remark (mark : Mark) (block : Block Item Mark) : (block.remark mark).mark = mark := rfl

theorem map_fst_marked (blank : Mark) (block : Block Item Mark) :
    (block.marked blank).map Prod.fst = block.items := by
  simp [marked, items, Function.comp_def]

end Block

def flat (blank : Mark) (blocks : List (Block Item Mark)) : List (Item × Mark) :=
  blocks.flatMap (Block.marked blank)

@[simp] theorem flat_nil (blank : Mark) : flat blank ([] : List (Block Item Mark)) = [] := rfl

@[simp] theorem flat_cons (blank : Mark) (block : Block Item Mark) (blocks : List (Block Item Mark)) :
    flat blank (block :: blocks) = block.marked blank ++ flat blank blocks := rfl

theorem flat_append (blank : Mark) (first second : List (Block Item Mark)) :
    flat blank (first ++ second) = flat blank first ++ flat blank second :=
  List.flatMap_append

variable [DecidableEq Mark]

def cutFrom (blank : Mark) (block : Block Item Mark) : List (Item × Mark) → List (Block Item Mark)
  | [] => [block]
  | (item, mark) :: rest =>
    if mark = blank then cutFrom blank { block with tail := block.tail ++ [item] } rest
    else block :: cutFrom blank ⟨item, [], mark⟩ rest

def cut (blank : Mark) : List (Item × Mark) → List (Block Item Mark)
  | [] => []
  | (item, mark) :: rest => cutFrom blank ⟨item, [], mark⟩ rest

def leading (blank : Mark) : List (Item × Mark) → List Item
  | [] => []
  | (item, _) :: rest => item :: (rest.takeWhile fun other => other.2 = blank).map Prod.fst

variable {blank : Mark} {blocks : List (Block Item Mark)}

theorem cutFrom_blanks (block : Block Item Mark) (items : List Item) (rest : List (Item × Mark)) :
    cutFrom blank block (items.map (·, blank) ++ rest) =
      cutFrom blank { block with tail := block.tail ++ items } rest := by
  induction items generalizing block with
  | nil => simp
  | cons item items ih =>
    rw [List.map_cons, List.cons_append, cutFrom, if_pos rfl, ih]
    simp

theorem cutFrom_flat (block : Block Item Mark) (marks : ∀ block ∈ blocks, block.mark ≠ blank) :
    cutFrom blank block (flat blank blocks) = block :: blocks := by
  induction blocks generalizing block with
  | nil => rfl
  | cons next rest ih =>
    have marked : next.mark ≠ blank := marks next List.mem_cons_self
    rw [flat_cons, Block.marked, List.cons_append, cutFrom, if_neg marked, cutFrom_blanks,
      List.nil_append, ih _ fun other member => marks other (List.mem_cons_of_mem _ member)]

theorem cut_flat (marks : ∀ block ∈ blocks, block.mark ≠ blank) : cut blank (flat blank blocks) = blocks := by
  cases blocks with
  | nil => rfl
  | cons block rest =>
    rw [flat_cons, Block.marked, List.cons_append, cut, cutFrom_blanks, List.nil_append]
    exact cutFrom_flat block fun other member => marks other (List.mem_cons_of_mem _ member)

omit [DecidableEq Mark] in
theorem place_of_mark {place : Nat} {item : Item} {mark : Mark}
    (found : (flat blank blocks)[place]? = some (item, mark)) (marked : mark ≠ blank) :
    ∃ before block after, blocks = before ++ block :: after ∧
      place = (flat blank before).length ∧ block.mark = mark := by
  induction blocks generalizing place with
  | nil => simp at found
  | cons block rest ih =>
    rw [flat_cons] at found
    by_cases inside : place < (block.marked blank).length
    · rw [List.getElem?_append_left inside] at found
      cases place with
      | zero =>
        obtain ⟨-, same⟩ := Prod.mk.inj (Option.some.inj found)
        exact ⟨[], block, rest, rfl, rfl, same⟩
      | succ place =>
        rw [Block.marked, List.getElem?_cons_succ, List.getElem?_map] at found
        obtain ⟨_, -, same⟩ := Option.map_eq_some_iff.mp found
        exact absurd (Prod.mk.inj same).2.symm marked
    · have reached := Nat.le_of_not_lt inside
      rw [List.getElem?_append_right reached] at found
      obtain ⟨before, next, after, split, there, same⟩ := ih found
      refine ⟨block :: before, next, after, by rw [split, List.cons_append], ?_, same⟩
      rw [flat_cons, List.length_append, ← there]
      omega

omit [DecidableEq Mark] in
theorem getElem?_flat_head (blank : Mark) (before after : List (Block Item Mark)) (block : Block Item Mark) :
    (flat blank (before ++ block :: after))[(flat blank before).length]? = some (block.head, block.mark) := by
  rw [flat_append, List.getElem?_append_right (Nat.le_refl _), Nat.sub_self]
  rfl

omit [DecidableEq Mark] in
theorem map_snd_flat_set (before after : List (Block Item Mark)) (block : Block Item Mark) (mark : Mark) :
    ((flat blank (before ++ block :: after)).map Prod.snd).set (flat blank before).length mark =
      (flat blank (before ++ block.remark mark :: after)).map Prod.snd := by
  have place : ((flat blank before).map Prod.snd).length = (flat blank before).length :=
    List.length_map _
  rw [flat_append, flat_append, List.map_append, List.map_append, ← place,
    List.set_append_right _ _ (Nat.le_refl _), Nat.sub_self]
  rfl

omit [DecidableEq Mark] in
theorem map_fst_flat_remark (blank : Mark) (before after : List (Block Item Mark)) (block : Block Item Mark)
    (mark : Mark) : (flat blank (before ++ block.remark mark :: after)).map Prod.fst =
      (flat blank (before ++ block :: after)).map Prod.fst := by
  simp [flat_append, Block.map_fst_marked]

theorem leading_flat {before after : List (Block Item Mark)} {block : Block Item Mark}
    (marks : ∀ other ∈ after, other.mark ≠ blank) :
    leading blank ((flat blank (before ++ block :: after)).drop (flat blank before).length) = block.items := by
  have ends : (flat blank after).takeWhile (fun other => other.2 = blank) = [] := by
    cases after with
    | nil => rfl
    | cons next rest =>
      have marked : next.mark ≠ blank := marks next List.mem_cons_self
      rw [flat_cons, Block.marked, List.cons_append, List.takeWhile_cons_of_neg]
      simpa using marked
  have blanks : ∀ other ∈ block.tail.map (·, blank), decide (other.2 = blank) = true := by
    intro other member
    obtain ⟨item, -, rfl⟩ := List.mem_map.mp member
    exact decide_eq_true rfl
  rw [flat_append, List.drop_left, flat_cons, Block.marked, List.cons_append, leading,
    List.takeWhile_append_of_pos blanks, ends, List.append_nil, List.map_map]
  simp [Block.items, Function.comp_def]

omit [DecidableEq Mark] in
theorem length_flat_lt (blank : Mark) (before later : List (Block Item Mark)) (block : Block Item Mark) :
    (flat blank before).length < (flat blank (before ++ block :: later)).length := by
  rw [flat_append, List.length_append, flat_cons, Block.marked]
  simp

variable {before after before' after' : List (Block Item Mark)} {block block' : Block Item Mark}

omit [DecidableEq Mark] in
theorem split_cases (same : before ++ block :: after = before' ++ block' :: after') :
    before = before' ∧ block = block' ∨ (∃ later, before' = before ++ block :: later) ∨
      ∃ later, before = before' ++ block' :: later := by
  rcases List.append_eq_append_iff.mp same with ⟨between, rfl, rest⟩ | ⟨between, rfl, rest⟩
  · cases between with
    | nil =>
      rw [List.nil_append] at rest
      exact .inl ⟨(List.append_nil _).symm, (List.cons.inj rest).1⟩
    | cons first later =>
      obtain rfl := (List.cons.inj rest).1
      exact .inr (.inl ⟨later, rfl⟩)
  · cases between with
    | nil =>
      rw [List.nil_append] at rest
      exact .inl ⟨List.append_nil _, (List.cons.inj rest).1.symm⟩
    | cons first later =>
      obtain rfl := (List.cons.inj rest).1
      exact .inr (.inr ⟨later, rfl⟩)

omit [DecidableEq Mark] in
theorem split_eq_of_place (same : before ++ block :: after = before' ++ block' :: after')
    (place : (flat blank before).length = (flat blank before').length) :
    before = before' ∧ block = block' := by
  rcases split_cases same with equal | ⟨later, rfl⟩ | ⟨later, rfl⟩
  · exact equal
  · have longer := length_flat_lt blank before later block
    omega
  · have longer := length_flat_lt blank before' later block'
    omega

omit [DecidableEq Mark] in
theorem split_of_place_lt (same : before ++ block :: after = before' ++ block' :: after')
    (place : (flat blank before).length < (flat blank before').length) :
    ∃ later, before' = before ++ block :: later := by
  rcases split_cases same with ⟨rfl, _⟩ | found | ⟨later, rfl⟩
  · omega
  · exact found
  · have longer := length_flat_lt blank before' later block'
    omega

end MarkedBlocks
