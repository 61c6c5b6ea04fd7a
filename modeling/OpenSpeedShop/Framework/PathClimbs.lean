import OpenSpeedShop.Framework.PathCore

/-!
Where the components of a path lead, what they leave of the directory where they
start, and how many levels they climb above it.
-/

namespace OpenSpeedShop.PathNames

open List (foldl_append foldl_cons foldl_nil append_assoc length_append mem_append append_nil)

/-- Where a component leads from a directory. An empty segment at the end, as in the root
directory or after a separator, gives way to the component. -/
def follow (segments : List Path) (component : Path) : List Path :=
  if component = dot then segments
  else if component = dotDot then segments.dropLast
  else if segments.getLast? = some [] then segments.dropLast ++ [component]
  else segments ++ [component]

def resolved (components : List Path) : List Path := components.foldl follow []

def descend (state : List Path × List Path) (component : Path) : List Path × List Path :=
  if component = dot then state
  else if component = dotDot then
    if state.2 = [] then (state.1.dropLast, []) else (state.1, state.2.dropLast)
  else if state.2 = [] ∧ state.1.getLast? = some [] then (state.1.dropLast, [component])
  else (state.1, state.2 ++ [component])

def left (segments components : List Path) : List Path :=
  (components.foldl descend (segments, [])).1

def climb (state : Nat × Nat) (component : Path) : Nat × Nat :=
  if component = dot then state
  else if component = dotDot then
    if state.2 = 0 then (state.1 + 1, 0) else (state.1, state.2 - 1)
  else (state.1, state.2 + 1)

def climbs (components : List Path) : Nat := (components.foldl climb (0, 0)).1

@[simp] theorem follow_dot (segments : List Path) : follow segments dot = segments := if_pos rfl

@[simp] theorem follow_dotDot (segments : List Path) : follow segments dotDot = segments.dropLast := by
  rw [follow, if_neg (by decide), if_pos rfl]

variable {segments : List Path}

theorem follow_name {component : Path} (isName : IsName component)
    (ends : segments.getLast? ≠ some []) : follow segments component = segments ++ [component] := by
  rw [follow, if_neg isName.2.1, if_neg isName.2.2, if_neg ends]

theorem getLast?_ne_of_names (names : ∀ segment ∈ segments, segment ≠ []) : segments.getLast? ≠ some [] :=
  fun last => names [] (List.mem_of_getLast? last) rfl

theorem foldl_follow_names {segments names : List Path} (ends : segments.getLast? ≠ some [])
    (isName : ∀ name ∈ names, IsName name) : names.foldl follow segments = segments ++ names := by
  induction names generalizing segments with
  | nil => exact (append_nil _).symm
  | cons name rest ih =>
    have own := isName name List.mem_cons_self
    have later := fun other member => isName other (List.mem_cons_of_mem _ member)
    have endsNext : (segments ++ [name]).getLast? ≠ some [] := by
      rw [List.getLast?_concat]
      exact fun empty => own.1 (Option.some.inj empty)
    rw [foldl_cons, follow_name own ends, ih endsNext later, append_assoc]
    rfl

variable {rest : List Path}

theorem foldl_follow_from {name : Path}
    (isName : ∀ other ∈ name :: rest, IsName other) : (name :: rest).foldl follow segments =
      (if segments.getLast? = some [] then segments.dropLast else segments) ++ name :: rest := by
  have own := isName name List.mem_cons_self
  have later := fun other member => isName other (List.mem_cons_of_mem _ member)
  have ends : ∀ before : List Path, (before ++ [name]).getLast? ≠ some [] := by
    intro before
    rw [List.getLast?_concat]
    exact fun empty => own.1 (Option.some.inj empty)
  rw [foldl_cons, follow, if_neg own.2.1, if_neg own.2.2]
  split
  · rw [foldl_follow_names (ends _) later, append_assoc]
    rfl
  · rw [foldl_follow_names (ends _) later, append_assoc]
    rfl

theorem follow_isName {component : Path} (nonempty : component ≠ [])
    (names : ∀ segment ∈ segments, IsName segment) :
    ∀ segment ∈ follow segments component, IsName segment := by
  intro segment member
  rw [follow] at member
  split at member
  · exact names segment member
  · rename_i notDot
    split at member
    · exact names segment ((List.dropLast_subset _) member)
    · rename_i notDotDot
      have own : ∀ other ∈ [component], IsName other := by
        intro other same
        rw [List.mem_singleton.mp same]
        exact ⟨nonempty, notDot, notDotDot⟩
      split at member
      · rcases mem_append.mp member with early | last
        · exact names segment ((List.dropLast_subset _) early)
        · exact own segment last
      · rcases mem_append.mp member with early | last
        · exact names segment early
        · exact own segment last

theorem resolved_isName {components : List Path} (nonempty : ∀ component ∈ components, component ≠ []) :
    ∀ segment ∈ resolved components, IsName segment := by
  induction components using List.reverseRecOn with
  | nil => exact fun _ member => absurd member List.not_mem_nil
  | append_singleton before last ih =>
    rw [resolved, foldl_append]
    exact follow_isName (nonempty last (by simp))
      (ih fun component member => nonempty component (List.mem_append_left _ member))

@[elab_as_elim]
theorem componentsInduction {motive : List Path → Prop} {components : List Path}
    (nonempty : ∀ component ∈ components, component ≠ []) (nil : motive [])
    (dot : ∀ before, motive before → motive (before ++ [dot]))
    (dotDot : ∀ before, (∀ component ∈ before, component ≠ []) → motive before → motive (before ++ [dotDot]))
    (name : ∀ before name, (∀ component ∈ before, component ≠ []) → IsName name → motive before →
      motive (before ++ [name])) : motive components := by
  induction components using List.reverseRecOn with
  | nil => exact nil
  | append_singleton before last ih =>
    have earlier : ∀ component ∈ before, component ≠ [] :=
      fun component member => nonempty component (List.mem_append_left _ member)
    by_cases isDot : last = PathNames.dot
    · rw [isDot]
      exact dot before (ih earlier)
    by_cases isDotDot : last = PathNames.dotDot
    · rw [isDotDot]
      exact dotDot before earlier (ih earlier)
    · exact name before last earlier ⟨nonempty last (by simp), isDot, isDotDot⟩ (ih earlier)

theorem resolved_concat (before : List Path) (last : Path) :
    resolved (before ++ [last]) = follow (resolved before) last := by
  rw [resolved, foldl_append]
  rfl

theorem foldl_descend_concat (segments before : List Path) (last : Path) :
    (before ++ [last]).foldl descend (segments, []) = descend (before.foldl descend (segments, [])) last := by
  rw [foldl_append]
  rfl

theorem resolved_ends {components : List Path} (nonempty : ∀ component ∈ components, component ≠ []) :
    (resolved components).getLast? ≠ some [] :=
  getLast?_ne_of_names fun segment member => (resolved_isName nonempty segment member).1

theorem descend_name {state : List Path × List Path} {name : Path} (isName : IsName name) :
    descend state name = if state.2 = [] ∧ state.1.getLast? = some [] then (state.1.dropLast, [name])
      else (state.1, state.2 ++ [name]) := by
  rw [descend, if_neg isName.2.1, if_neg isName.2.2]

variable {segments components : List Path}

theorem foldl_descend_snd (nonempty : ∀ component ∈ components, component ≠ []) :
    (components.foldl descend (segments, [])).2 = resolved components := by
  refine componentsInduction nonempty rfl ?dot ?dotDot ?name
  case dot =>
    intro before ih
    rw [foldl_descend_concat, resolved_concat, follow_dot]
    exact ih
  case dotDot =>
    intro before earlier ih
    rw [foldl_descend_concat, resolved_concat, follow_dotDot, ← ih, descend, if_neg (by decide), if_pos rfl]
    split
    · rename_i none
      rw [none]
      rfl
    · rfl
  case name =>
    intro before name earlier isName ih
    rw [foldl_descend_concat, resolved_concat, follow_name isName (resolved_ends earlier), ← ih,
      descend_name isName]
    split
    · rename_i replaces
      rw [replaces.1]
      rfl
    · rfl

@[simp] theorem left_dot (segments before : List Path) :
    left segments (before ++ [dot]) = left segments before := by
  rw [left, foldl_descend_concat]
  rfl

variable {segments before : List Path}

theorem left_dotDot (nonempty : ∀ component ∈ before, component ≠ []) : left segments (before ++ [dotDot]) =
      if resolved before = [] then (left segments before).dropLast else left segments before := by
  rw [left, foldl_descend_concat, descend, if_neg (by decide), if_pos rfl, foldl_descend_snd nonempty, ← left]
  split <;> rfl

theorem left_name {name : Path} (nonempty : ∀ component ∈ before, component ≠ []) (isName : IsName name) :
    left segments (before ++ [name]) =
      if resolved before = [] ∧ (left segments before).getLast? = some [] then
        (left segments before).dropLast else left segments before := by
  rw [left, foldl_descend_concat, descend_name isName, foldl_descend_snd nonempty, ← left]
  split <;> rfl

theorem foldl_follow (nonempty : ∀ component ∈ components, component ≠ []) :
    components.foldl follow segments = left segments components ++ resolved components := by
  refine componentsInduction nonempty (append_nil _).symm ?dot ?dotDot ?name
  case dot =>
    intro before ih
    rw [foldl_append, ih, left_dot, resolved_concat, follow_dot]
    exact follow_dot _
  case dotDot =>
    intro before earlier ih
    rw [foldl_append, ih, left_dotDot earlier, resolved_concat, follow_dotDot]
    refine (follow_dotDot _).trans ?_
    by_cases none : resolved before = []
    · simp [none]
    · rw [if_neg none, List.dropLast_append_of_ne_nil none]
  case name =>
    intro before name earlier isName ih
    rw [foldl_append, ih, left_name earlier isName, resolved_concat,
      follow_name isName (resolved_ends earlier), foldl_cons, foldl_nil]
    by_cases none : resolved before = []
    · simp only [none, append_nil, List.nil_append, true_and]
      rw [follow, if_neg isName.2.1, if_neg isName.2.2]
      split <;> rfl
    · have ends : (left segments before ++ resolved before).getLast? ≠ some [] := by
        rw [List.getLast?_append, List.getLast?_eq_some_getLast none, Option.some_or,
          ← List.getLast?_eq_some_getLast none]
        exact resolved_ends earlier
      rw [if_neg fun both => none both.1, follow_name isName ends, append_assoc]

theorem foldl_climb_snd {components : List Path} (nonempty : ∀ component ∈ components, component ≠ []) :
    (components.foldl climb (0, 0)).2 = (resolved components).length := by
  refine componentsInduction nonempty rfl ?dot ?dotDot ?name
  case dot =>
    intro before ih
    rw [foldl_append, resolved_concat, follow_dot]
    exact ih
  case dotDot =>
    intro before earlier ih
    rw [foldl_append, foldl_cons, foldl_nil, resolved_concat, follow_dotDot,
      List.length_dropLast, ← ih, climb, if_neg (by decide), if_pos rfl]
    split
    · rename_i none
      rw [none]
    · rfl
  case name =>
    intro before name earlier isName ih
    rw [foldl_append, foldl_cons, foldl_nil, resolved_concat,
      follow_name isName (resolved_ends earlier), length_append, ← ih, climb,
      if_neg isName.2.1, if_neg isName.2.2]
    rfl

@[simp] theorem climbs_dot (before : List Path) : climbs (before ++ [dot]) = climbs before := by
  rw [climbs, foldl_append]
  rfl

theorem climbs_dotDot {before : List Path} (nonempty : ∀ component ∈ before, component ≠ []) :
    climbs (before ++ [dotDot]) = if resolved before = [] then climbs before + 1 else climbs before := by
  rw [climbs, foldl_append, foldl_cons, foldl_nil, climb, if_neg (by decide),
    if_pos rfl, foldl_climb_snd nonempty]
  refine (apply_ite Prod.fst _ _ _).trans (if_congr List.length_eq_zero_iff rfl rfl)

theorem climbs_name (before : List Path) {name : Path} (isName : IsName name) :
    climbs (before ++ [name]) = climbs before := by
  rw [climbs, foldl_append, foldl_cons, foldl_nil, climb, if_neg isName.2.1, if_neg isName.2.2]
  rfl

theorem left_eq_take (names : ∀ segment ∈ segments, segment ≠ [])
    (nonempty : ∀ component ∈ components, component ≠ []) :
    left segments components = segments.take (segments.length - climbs components) := by
  refine componentsInduction nonempty ?nil ?dot ?dotDot ?name
  case nil =>
    exact (List.take_of_length_le (Nat.le_refl _)).symm
  case dot =>
    intro before ih
    rw [left_dot, climbs_dot]
    exact ih
  case dotDot =>
    intro before earlier ih
    rw [left_dotDot earlier, climbs_dotDot earlier, ih]
    split
    · rw [List.dropLast_eq_take, List.length_take, List.take_take]
      refine congrArg (fun count => List.take count segments) ?_
      omega
    · rfl
  case name =>
    intro before name earlier isName ih
    rw [left_name earlier isName, climbs_name before isName, ih]
    refine if_neg fun replaces => names [] ?_ rfl
    exact List.mem_of_mem_take (List.mem_of_getLast? replaces.2)

theorem foldl_descend_nil (components pushed : List Path) :
    (components.foldl descend ([], pushed)).1 = [] := by
  induction components generalizing pushed with
  | nil => rfl
  | cons component rest ih =>
    have step : ∃ next, descend ([], pushed) component = ([], next) := by
      rw [descend]
      split
      · exact ⟨_, rfl⟩
      split
      · split <;> exact ⟨_, rfl⟩
      split <;> exact ⟨_, rfl⟩
    obtain ⟨next, same⟩ := step
    rw [foldl_cons, same]
    exact ih next

theorem left_root (components : List Path) :
    left [[]] components = if ∃ component ∈ components, component ≠ dot then [] else [[]] := by
  induction components with
  | nil => rfl
  | cons component rest ih =>
    by_cases isDot : component = dot
    · subst isDot
      have skipped : left [[]] (dot :: rest) = left [[]] rest := rfl
      rw [skipped, ih]
      refine if_congr ?_ rfl rfl
      simp
    · have step : ∃ next, descend ([[]], []) component = ([], next) := by
        rw [descend, if_neg isDot]
        split
        · exact ⟨_, rfl⟩
        · exact ⟨_, rfl⟩
      obtain ⟨next, same⟩ := step
      rw [if_pos ⟨component, List.mem_cons_self, isDot⟩, left, foldl_cons, same]
      exact foldl_descend_nil rest next

theorem left_eq_left_iff {shorter : List Path} {name : Path} {components : List Path}
    (names : ∀ segment ∈ shorter ++ [name], segment ≠ [])
    (nonempty : ∀ component ∈ components, component ≠ []) :
    left shorter components = left (shorter ++ [name]) components ↔ shorter.length < climbs components := by
  rw [left_eq_take names nonempty, left_eq_take (fun segment member =>
    names segment (List.mem_append_left _ member)) nonempty]
  constructor
  · intro same
    have lengths := congrArg List.length same
    simp only [List.length_take, length_append, List.length_singleton] at lengths
    omega
  · intro far
    rw [length_append, List.length_singleton, Nat.sub_eq_zero_of_le (Nat.le_of_lt far),
      Nat.sub_eq_zero_of_le far, List.take_zero, List.take_zero]

theorem foldl_follow_eq_iff {first second components : List Path}
    (nonempty : ∀ component ∈ components, component ≠ []) :
    components.foldl follow first = components.foldl follow second ↔
      left first components = left second components := by
  rw [foldl_follow nonempty, foldl_follow nonempty, List.append_left_inj]

theorem foldl_follow_ne_nil {segments names : List Path} (nonempty : segments ≠ [])
    (isName : ∀ name ∈ names, IsName name) : names.foldl follow segments ≠ [] := by
  cases names with
  | nil => exact nonempty
  | cons name rest =>
    rw [foldl_follow_from isName]
    simp

theorem left_root_eq_iff {first : Path} (nonemptyFirst : first ≠ [])
    (nonempty : ∀ component ∈ rest, component ≠ []) : left [[]] rest = left (follow [] first) rest ↔
      (∃ component ∈ rest, component ≠ dot) ∧ (first = dot ∨ first = dotDot ∨ 0 < climbs rest) := by
  have nothing : ∀ components, left [] components = [] := fun components =>
    foldl_descend_nil components []
  have reached : left (follow [] first) rest = [] ↔
      first = dot ∨ first = dotDot ∨ 0 < climbs rest := by
    by_cases isDot : first = dot
    · subst isDot
      simp [nothing]
    by_cases isDotDot : first = dotDot
    · subst isDotDot
      simp [nothing]
    have isName : IsName first := ⟨nonemptyFirst, isDot, isDotDot⟩
    have climbing := @left_eq_left_iff [] first rest (by simpa using nonemptyFirst) nonempty
    rw [nothing, eq_comm] at climbing
    rw [follow_name isName (by simp), climbing]
    simp [isDot, isDotDot]
  rw [left_root]
  split
  · rename_i something
    rw [eq_comm, reached]
    exact (and_iff_right something).symm
  · rename_i onlyDots
    refine iff_of_false (fun same => ?_) fun both => onlyDots both.1
    have names : ∀ segment ∈ follow [] first, segment ≠ [] := fun segment member =>
      (follow_isName nonemptyFirst (by simp) segment member).1
    have kept : ([] : Path) ∈ left (follow [] first) rest := by
      rw [← same]
      exact List.mem_singleton_self _
    rw [left_eq_take names nonempty] at kept
    exact names [] (List.mem_of_mem_take kept) rfl

theorem left_cwd_eq_iff {cwd : List Path} {first : Path} (nonroot : cwd ≠ [])
    (names : ∀ segment ∈ cwd, segment ≠ []) (nonemptyFirst : first ≠ [])
    (nonempty : ∀ component ∈ rest, component ≠ []) : left cwd rest = left (follow cwd first) rest ↔
      first = dot ∨ first = dotDot ∧ cwd.length ≤ climbs rest ∨ cwd.length < climbs rest := by
  by_cases isDot : first = dot
  · subst isDot
    simp
  by_cases isDotDot : first = dotDot
  · subst isDotDot
    obtain ⟨before, last, rfl⟩ := List.eq_nil_or_concat cwd |>.resolve_left nonroot
    rw [List.concat_eq_append] at names ⊢
    rw [follow_dotDot, List.dropLast_concat, eq_comm, left_eq_left_iff names nonempty,
      length_append, List.length_singleton]
    constructor
    · exact fun far => Or.inr (Or.inl ⟨rfl, far⟩)
    · rintro (impossible | ⟨-, far⟩ | far)
      · exact absurd impossible isDot
      · exact far
      · omega
  · have isName : IsName first := ⟨nonemptyFirst, isDot, isDotDot⟩
    rw [follow_name isName (getLast?_ne_of_names names), left_eq_left_iff _ nonempty]
    · simp [isDot, isDotDot]
    · intro segment member
      rcases mem_append.mp member with early | last
      · exact names segment early
      · rw [List.mem_singleton.mp last]
        exact nonemptyFirst

end OpenSpeedShop.PathNames
