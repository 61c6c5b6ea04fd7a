import OpenSpeedShop.Framework.PathClimbs

/-!
Normalising a path resolves its components, where the first component of a
relative path and a home directory let it.
-/

namespace OpenSpeedShop.PathNames

open List (mem_cons_of_mem foldl_cons mem_cons_self nil_append cons_ne_nil)

variable {segments : List Path}

section

variable {component : Path} (free : ∀ segment ∈ segments, '/' ∉ segment) (own : '/' ∉ component)
include free own

theorem resolve_absolute : resolve (absolute segments) component = absolute (follow segments component) := by
  rw [resolve, follow]
  split
  · rfl
  split
  · rw [removeLast, absolute, Segments.dropLast_joined free]
    split
    · rfl
    · rename_i absent
      cases segments with
      | nil => rfl
      | cons segment rest => exact absurd mem_cons_self absent
  · have starts : component.head? ≠ some '/' :=
      fun first => own (List.mem_of_mem_head? first)
    have last := @Segments.getLast?_joined _ '/' segments free
    rw [append, absolute, absolute]
    split
    · rename_i both
      rw [if_neg (mt last.mpr both.1), Segments.joined_append, Segments.joined_singleton]
    · rename_i ends
      rw [not_and_or, not_not, not_not] at ends
      have empty := last.mp (ends.resolve_right starts)
      obtain ⟨before, rfl⟩ := List.getLast?_eq_some_iff.mp empty
      rw [if_pos empty, List.dropLast_concat, Segments.joined_append, Segments.joined_append,
        Segments.joined_singleton, Segments.joined_singleton, List.append_assoc]
      rfl

theorem follow_free : ∀ segment ∈ follow segments component, '/' ∉ segment := by
  have both : ∀ before : List Path, (∀ segment ∈ before, '/' ∉ segment) →
      ∀ segment ∈ before ++ [component], '/' ∉ segment := by
    intro before freeBefore segment member
    rcases List.mem_append.mp member with early | last
    · exact freeBefore segment early
    · rw [List.mem_singleton.mp last]
      exact own
  have fewer : ∀ segment ∈ segments.dropLast, '/' ∉ segment :=
    fun segment member => free segment (List.dropLast_subset _ member)
  rw [follow]
  split
  · exact free
  split
  · exact fewer
  split
  · exact both _ fewer
  · exact both _ free

end

section

variable {segments components : List Path} (free : ∀ segment ∈ segments, '/' ∉ segment)
  (own : ∀ component ∈ components, '/' ∉ component)
include free own

theorem foldl_follow_free : ∀ segment ∈ components.foldl follow segments, '/' ∉ segment := by
  induction components generalizing segments with
  | nil => exact free
  | cons component rest ih =>
    exact ih (follow_free free (own component mem_cons_self))
      fun other member => own other (mem_cons_of_mem _ member)

theorem foldl_resolve :
    components.foldl resolve (absolute segments) = absolute (components.foldl follow segments) := by
  induction components generalizing segments with
  | nil => rfl
  | cons component rest ih =>
    have noSeparator := own component mem_cons_self
    rw [foldl_cons, resolve_absolute free noSeparator, foldl_cons]
    exact ih (follow_free free noSeparator) fun other member => own other (mem_cons_of_mem _ member)

end

theorem mem_components {path component : Path} (member : component ∈ components path) :
    component ≠ [] ∧ '/' ∉ component := by
  obtain ⟨piece, nonempty⟩ := List.mem_filter.mp member
  exact ⟨of_decide_eq_true nonempty, Segments.notMem_of_mem_splitOn piece⟩

theorem components_absolute (free : ∀ segment ∈ segments, '/' ∉ segment) :
    components (absolute segments) = segments.filter (· ≠ []) := by
  rw [components, absolute, Segments.splitOn_joined free]
  rfl

theorem components_absolute_append (path : Path) (free : ∀ segment ∈ segments, '/' ∉ segment) :
    components (absolute segments ++ '/' :: path) = segments.filter (· ≠ []) ++ components path := by
  rw [components, absolute, Segments.splitOn_joined_append path free, List.filter_cons_of_neg,
    List.filter_append]
  · rfl
  · decide

theorem startsWithTilde_first {path first : Path} {rest : List Path}
    (relative : isAbsolute path = false) (split : components path = first :: rest) :
    startsWithTilde first = startsWithTilde path := by
  cases path with
  | nil => cases split
  | cons character others =>
    have different : ¬ character = '/' := by
      rintro rfl
      cases relative
    rw [components, List.splitOn_cons_eq_if_modifyHead, if_neg (by simpa using different)] at split
    cases pieces : others.splitOn '/' with
    | nil => exact absurd pieces (List.splitOn_ne_nil _ _)
    | cons piece more =>
      rw [pieces, List.modifyHead_cons, List.filter_cons_of_pos (by simp), List.cons.injEq] at split
      rw [← split.1]
      rfl

theorem isAbsolute_absolute (segment : Path) (rest : List Path) :
    isAbsolute (absolute (segment :: rest)) = true := rfl

namespace Environment

variable (environment : Environment)

def cwdSegments : List Path := if environment.cwd = [] then [[]] else environment.cwd

def expansion (component : Path) : List Path :=
  (if isAbsolute (environment.home component) then (environment.home component).drop 1
    else environment.home component).splitOn '/'

def origin (path : Path) : List Path × List Path :=
  match components path with
  | [] => ([], [])
  | first :: rest =>
    if startsWithTilde first then (environment.expansion first, rest)
    else if isAbsolute path then ([], first :: rest)
    else (environment.cwdSegments, rest)

theorem getcwd_eq : environment.getcwd = absolute environment.cwdSegments := by
  rw [getcwd, cwdSegments]
  split <;> rfl

theorem append_home (component : Path) :
    append [] (environment.home component) = absolute (environment.expansion component) := by
  rw [expansion, absolute, Segments.joined_splitOn]
  cases environment.home component with
  | nil => rfl
  | cons first rest =>
    by_cases same : first = '/'
    · subst same
      rfl
    · have relative : isAbsolute (first :: rest) = false := by simpa [isAbsolute] using same
      rw [relative, append, if_pos ⟨by simp, by simpa using same⟩]
      rfl

theorem expansion_ne_nil (component : Path) : environment.expansion component ≠ [] :=
  List.splitOn_ne_nil _ _

theorem expansion_free (component : Path) : ∀ segment ∈ environment.expansion component, '/' ∉ segment :=
  fun _ member => Segments.notMem_of_mem_splitOn member

theorem cwdSegments_free : ∀ segment ∈ environment.cwdSegments, '/' ∉ segment := by
  intro segment member
  rw [cwdSegments] at member
  split at member
  · rw [List.mem_singleton.mp member]
    exact List.not_mem_nil
  · exact (environment.cwdNames segment member).2

theorem cwdSegments_filter : environment.cwdSegments.filter (· ≠ []) = environment.cwd := by
  rw [cwdSegments]
  split
  · rename_i root
    rw [root]
    rfl
  · refine List.filter_eq_self.mpr fun component member => ?_
    exact decide_eq_true (environment.cwdNames component member).1.1

theorem origin_free (path : Path) : (∀ segment ∈ (environment.origin path).1, '/' ∉ segment) ∧
      ∀ component ∈ (environment.origin path).2, component ≠ [] ∧ '/' ∉ component := by
  have parts : ∀ component ∈ components path, component ≠ [] ∧ '/' ∉ component :=
    fun _ => mem_components
  rw [origin]
  split
  · exact ⟨nofun, nofun⟩
  · rename_i first rest split
    rw [split] at parts
    have later : ∀ component ∈ rest, component ≠ [] ∧ '/' ∉ component :=
      fun component member => parts component (mem_cons_of_mem _ member)
    split
    · exact ⟨environment.expansion_free first, later⟩
    split
    · exact ⟨nofun, parts⟩
    · exact ⟨environment.cwdSegments_free, later⟩

theorem followed_free (path : Path) :
    ∀ segment ∈ (environment.origin path).2.foldl follow (environment.origin path).1, '/' ∉ segment := by
  obtain ⟨free, own⟩ := environment.origin_free path
  exact foldl_follow_free free fun component member => (own component member).2

theorem getNormalized_eq (path : Path) : environment.getNormalized path =
    absolute ((environment.origin path).2.foldl follow (environment.origin path).1) := by
  obtain ⟨free, own⟩ := environment.origin_free path
  rw [← foldl_resolve free fun component member => (own component member).2, getNormalized, origin]
  cases components path with
  | nil => rfl
  | cons first rest =>
    dsimp only
    rw [resolveFirst]
    by_cases tilde : startsWithTilde first
    · rw [if_pos tilde, if_pos tilde, append_home]
    · rw [if_neg tilde, if_neg tilde]
      cases isAbsolute path with
      | true => rfl
      | false =>
        rw [getcwd_eq]
        rfl

def reached (path : Path) : List Path :=
  left (environment.origin path).1 (environment.origin path).2 ++ resolved (environment.origin path).2

theorem getNormalized_eq_reached (path : Path) :
    environment.getNormalized path = absolute (environment.reached path) := by
  rw [getNormalized_eq, reached, foldl_follow fun component member =>
    ((environment.origin_free path).2 component member).1]

theorem reached_free (path : Path) : ∀ segment ∈ environment.reached path, '/' ∉ segment := by
  rw [reached, ← foldl_follow fun component member =>
    ((environment.origin_free path).2 component member).1]
  exact environment.followed_free path

end Environment

def IsNormal (path : Path) : Prop :=
  ∃ names, path.splitOn '/' = [] :: names ∧ ∀ name ∈ names, IsName name

structure Environment.Resolves (environment : Environment) (path : Path) : Prop where
  relative : isAbsolute path = false → startsWithTilde path = false →
    environment.getNormalized path = environment.getNormalized (environment.getcwd ++ '/' :: path)
  normal : IsNormal (environment.getNormalized path)
  idempotent : environment.getNormalized (environment.getNormalized path) = environment.getNormalized path

/-- The first component of a relative path makes no difference: it refers to the directory itself, or the
others climb out of the directories with and without it. Behind an empty one something follows. -/
def Environment.FirstIdle (environment : Environment) (path : Path) : Prop :=
  match components path with
  | [] => environment.cwd = []
  | first :: rest =>
    match environment.cwd with
    | [] => (∃ component ∈ rest, component ≠ dot) ∧ (first = dot ∨ first = dotDot ∨ 0 < climbs rest)
    | top :: others =>
      if startsWithTilde top then
        left (top :: others) rest =
          left ((others ++ [first]).foldl follow (environment.expansion top)) rest
      else
        first = dot ∨ first = dotDot ∧ (top :: others).length ≤ climbs rest ∨
          (top :: others).length < climbs rest

def Environment.Unexpanded (environment : Environment) (name : Path) (components : Nat) : Prop :=
  environment.expansion name = [name] ∨ environment.expansion name = [name, []] ∧ 1 < components

structure Environment.Suits (environment : Environment) (path : Path) : Prop where
  first : isAbsolute path = false → startsWithTilde path = false → environment.FirstIdle path
  names : ∀ segment ∈ left (environment.origin path).1 (environment.origin path).2, IsName segment
  top : ∀ name ∈ (environment.reached path).head?, startsWithTilde name →
    environment.Unexpanded name (environment.reached path).length

namespace Environment

variable (environment : Environment)

variable {segments : List Path}

theorem isNormal_absolute (free : ∀ segment ∈ segments, '/' ∉ segment) :
    IsNormal (absolute segments) ↔ ∀ segment ∈ segments, IsName segment := by
  rw [IsNormal, absolute, Segments.splitOn_joined free]
  constructor
  · rintro ⟨names, same, isName⟩
    rw [List.cons.injEq] at same
    rw [same.2]
    exact isName
  · exact fun isName => ⟨segments, rfl, isName⟩

theorem normal_iff (path : Path) : IsNormal (environment.getNormalized path) ↔
    ∀ segment ∈ left (environment.origin path).1 (environment.origin path).2, IsName segment := by
  rw [getNormalized_eq_reached, isNormal_absolute (environment.reached_free path), reached]
  refine ⟨fun isName segment member => isName segment (List.mem_append_left _ member), ?_⟩
  intro isName segment member
  rcases List.mem_append.mp member with early | late
  · exact isName segment early
  · exact resolved_isName (fun component there =>
      ((environment.origin_free path).2 component there).1) segment late

theorem trimmed_eq_singleton {name : Path} (nonempty : name ≠ []) :
    (if segments.getLast? = some [] then segments.dropLast else segments) = [name] ↔
      segments = [name] ∨ segments = [name, []] := by
  split
  · rename_i ends
    obtain ⟨before, rfl⟩ := List.getLast?_eq_some_iff.mp ends
    rw [List.dropLast_concat]
    constructor
    · rintro rfl
      exact Or.inr rfl
    · rintro (same | same)
      · have last := congrArg List.getLast? same
        rw [List.getLast?_concat] at last
        exact absurd (Option.some.inj last).symm nonempty
      · exact (List.append_left_inj [[]]).mp (show before ++ [[]] = [name] ++ [[]] from same)
  · rename_i ends
    refine ⟨Or.inl, fun either => either.resolve_right fun same => ends ?_⟩
    rw [same]
    rfl

theorem getNormalized_normal_iff
    (free : ∀ segment ∈ segments, '/' ∉ segment) (isName : ∀ segment ∈ segments, IsName segment) :
    environment.getNormalized (absolute segments) = absolute segments ↔
      ∀ name ∈ segments.head?, startsWithTilde name → environment.Unexpanded name segments.length := by
  have parts : components (absolute segments) = segments := by
    rw [components_absolute free, List.filter_eq_self]
    exact fun segment member => decide_eq_true (isName segment member).1
  have same := Segments.joined_injective (environment.followed_free (absolute segments)) free
  rw [getNormalized_eq]
  refine same.trans ?_
  rw [origin, parts]
  cases segments with
  | nil => exact ⟨fun _ => nofun, fun _ => rfl⟩
  | cons name rest =>
    have later := fun other member => isName other (mem_cons_of_mem _ member)
    simp only [List.head?_cons, Option.mem_def, Option.some.injEq, forall_eq']
    by_cases tilde : startsWithTilde name
    · rw [if_pos tilde]
      simp only [tilde, forall_const, Unexpanded]
      cases rest with
      | nil => simp
      | cons second others =>
        rw [foldl_follow_from later]
        have cancel := @List.append_left_inj _
          (if (environment.expansion name).getLast? = some [] then
            (environment.expansion name).dropLast else environment.expansion name)
          [name] (second :: others)
        refine cancel.trans ((trimmed_eq_singleton (isName name mem_cons_self).1).trans ?_)
        refine or_congr_right (and_iff_left ?_).symm
        rw [List.length_cons, List.length_cons]
        omega
    · rw [if_neg tilde, isAbsolute_absolute, if_pos rfl]
      rw [foldl_follow_names (by simp) isName, nil_append]
      exact ⟨fun _ isTilde => absurd isTilde tilde, fun _ => rfl⟩

theorem idempotent_iff {path : Path} (isName : ∀ segment ∈ environment.reached path, IsName segment) :
    environment.getNormalized (environment.getNormalized path) = environment.getNormalized path ↔
      ∀ name ∈ (environment.reached path).head?, startsWithTilde name →
        environment.Unexpanded name (environment.reached path).length := by
  rw [environment.getNormalized_eq_reached path]
  exact environment.getNormalized_normal_iff (environment.reached_free path) isName

theorem components_cwd_append (path : Path) :
    components (environment.getcwd ++ '/' :: path) = environment.cwd ++ components path := by
  rw [getcwd_eq, components_absolute_append path environment.cwdSegments_free, cwdSegments_filter]

theorem isAbsolute_cwd_append (path : Path) : isAbsolute (environment.getcwd ++ '/' :: path) = true := by
  rw [getcwd]
  cases environment.cwd with
  | nil => rfl
  | cons first rest => rfl

theorem getNormalized_eq_iff (first second : Path) :
    environment.getNormalized first = environment.getNormalized second ↔
      (environment.origin first).2.foldl follow (environment.origin first).1 =
        (environment.origin second).2.foldl follow (environment.origin second).1 := by
  rw [getNormalized_eq, getNormalized_eq]
  exact Segments.joined_injective (environment.followed_free first) (environment.followed_free second)

theorem relative_iff {path : Path} (relative : isAbsolute path = false)
    (noTilde : startsWithTilde path = false) :
    environment.getNormalized path = environment.getNormalized (environment.getcwd ++ '/' :: path) ↔
      environment.FirstIdle path := by
  have parts : ∀ component ∈ components path, component ≠ [] ∧ '/' ∉ component :=
    fun _ => mem_components
  have tilde := @startsWithTilde_first path
  rw [getNormalized_eq_iff, FirstIdle, origin, origin, components_cwd_append, isAbsolute_cwd_append]
  cases split : components path with
  | nil =>
    rw [List.append_nil]
    cases cwd : environment.cwd with
    | nil => exact ⟨fun _ => rfl, fun _ => rfl⟩
    | cons top others =>
      have names : ∀ component ∈ top :: others, IsName component := fun component member =>
        (environment.cwdNames component (cwd ▸ member)).1
      refine iff_of_false (fun same => ?_) (cons_ne_nil top others)
      dsimp only at same
      split at same
      · exact foldl_follow_ne_nil (environment.expansion_ne_nil top)
          (fun name member => names name (mem_cons_of_mem _ member)) same.symm
      · rw [if_pos rfl, foldl_follow_names (by simp) names] at same
        cases same
  | cons first rest =>
    rw [split] at parts
    have notTilde : startsWithTilde first = false := (tilde relative split).trans noTilde
    have nonempty : ∀ component ∈ rest, component ≠ [] :=
      fun component member => (parts component (mem_cons_of_mem _ member)).1
    have nonemptyFirst := (parts first mem_cons_self).1
    simp only [notTilde, relative, Bool.false_eq_true, if_false, if_true, cwdSegments]
    cases cwd : environment.cwd with
    | nil =>
      rw [← left_root_eq_iff nonemptyFirst nonempty, ← foldl_follow_eq_iff nonempty]
      simp only [nil_append, notTilde, Bool.false_eq_true, if_false, if_true, foldl_cons]
    | cons top others =>
      have names : ∀ component ∈ top :: others, IsName component := fun component member =>
        (environment.cwdNames component (cwd ▸ member)).1
      have idle := @left_cwd_eq_iff rest (top :: others) first (cons_ne_nil _ _)
        (fun segment member => (names segment member).1) nonemptyFirst nonempty
      have walked := @foldl_follow_names [] (top :: others) (by simp) names
      simp only [List.cons_append, cons_ne_nil, if_false]
      split
      · rw [← foldl_follow_eq_iff nonempty]
        simp only [List.foldl_append, foldl_cons, List.foldl_nil]
      · rw [← idle, ← foldl_follow_eq_iff nonempty]
        have after : (top :: (others ++ first :: rest)).foldl follow [] =
            rest.foldl follow (follow (top :: others) first) := by
          rw [← List.cons_append, List.foldl_append, walked, nil_append, foldl_cons]
        dsimp only
        rw [after]

/-- A path is resolved against the current directory, to its normal form, exactly when its
first component, home directory and uppermost name let it. -/
theorem getNormalized_iff (environment : Environment) (path : Path) :
    environment.Resolves path ↔ environment.Suits path := by
  have reached (names : ∀ segment ∈ left (environment.origin path).1 (environment.origin path).2,
      IsName segment) : ∀ segment ∈ environment.reached path, IsName segment := by
    intro segment member
    rcases List.mem_append.mp member with early | late
    · exact names segment early
    · exact resolved_isName (fun component there =>
        ((environment.origin_free path).2 component there).1) segment late
  constructor
  · rintro ⟨relative, normal, idempotent⟩
    have names := (environment.normal_iff path).mp normal
    exact ⟨fun isRelative noTilde =>
        (environment.relative_iff isRelative noTilde).mp (relative isRelative noTilde),
      names, (environment.idempotent_iff (reached names)).mp idempotent⟩
  · rintro ⟨first, names, top⟩
    exact ⟨fun isRelative noTilde =>
        (environment.relative_iff isRelative noTilde).mpr (first isRelative noTilde),
      (environment.normal_iff path).mpr names,
      (environment.idempotent_iff (reached names)).mpr top⟩

end Environment

def atHome : Environment where
  cwd := ["home".toList, "user".toList]
  cwdNames := by decide
  ownHome := some "/home/user".toList
  homeOf _ := none

theorem relativePath_firstLost : ¬ ∀ (environment : Environment) (path : Path), environment.Resolves path := by
  intro resolves
  have lost := (resolves atHome "src/main".toList).relative rfl rfl
  exact absurd lost (by decide)

end OpenSpeedShop.PathNames
