import Pseudocode.Proofs.Files.Tree

/-!
Paths and where they lead. A path is its pieces behind the root or a dot (`components_eq`), and is taken in normal form
by going through its components (`normalise`). The name of a program's file is accepted if all its components are
ordinary (`pathInDir?_eq_some_iff`), and then they follow those of the directory in the path that it is given
(`components_join`).
-/

namespace Pseudocode.CommandLine

section Pieces

variable {path a b : List Char}

theorem pieces_eq_splitOn (path : List Char) : pieces path = path.splitOn '/' := by
  induction path with
  | nil => rfl
  | cons c rest ih =>
    rw [pieces, List.splitOn_cons_eq_if_modifyHead, ih]
    by_cases slash : c = '/'
    · rw [if_pos slash, if_pos (beq_iff_eq.2 slash)]
    · rw [if_neg slash, if_neg (by simpa using slash)]
      cases some : rest.splitOn '/' with
      | nil => exact absurd some (List.splitOn_ne_nil '/' rest)
      | cons piece more => rfl

theorem pieces_append_slash (a b : List Char) : pieces (a ++ '/' :: b) = pieces a ++ pieces b := by
  simp only [pieces_eq_splitOn, List.splitOn_append_cons_self]

/-- The first piece is empty if there is nothing before the first slash. -/
theorem pieces_cases (path : List Char) :
    (path = [] ∧ pieces path = [[]]) ∨
    (∃ rest, path = '/' :: rest ∧ pieces path = [] :: pieces rest) ∨
    ∃ c piece more, path.head? ≠ some '/' ∧ pieces path = (c :: piece) :: more := by
  cases path with
  | nil => exact .inl ⟨rfl, rfl⟩
  | cons c rest =>
    rw [pieces]
    by_cases slash : c = '/'
    · exact .inr (.inl ⟨rest, by rw [slash], if_pos slash⟩)
    · refine .inr (.inr ?_)
      rw [if_neg slash]
      cases some : pieces rest with
      | nil => exact absurd some (FileTree.pieces_ne_nil rest)
      | cons piece more => exact ⟨c, piece, more, by simpa using slash, rfl⟩

/-- What the pieces of a path go through. -/
def innerComponents (path : List Char) : List Component := (pieces path).filterMap innerComponent?

/-- What a path begins with besides its pieces: the root, or a dot. -/
def lead (path : List Char) : List Component :=
  if path.head? = some '/' then [.root] else if (pieces path).head? = some ['.'] then [.current] else []

/-- A piece goes nowhere, or up, or it is a name. -/
theorem innerComponent?_cases (piece : List Char) :
    ((piece = [] ∨ piece = ['.']) ∧ innerComponent? piece = none) ∨
    (piece = ['.', '.'] ∧ innerComponent? piece = some .parent) ∨
    ((piece ≠ [] ∧ piece ≠ ['.'] ∧ piece ≠ ['.', '.']) ∧ innerComponent? piece = some (.ordinary piece)) := by
  fun_cases innerComponent? piece with
  | case1 => exact .inl ⟨.inl rfl, rfl⟩
  | case2 => exact .inl ⟨.inr rfl, rfl⟩
  | case3 => exact .inr (.inl ⟨rfl, rfl⟩)
  | case4 _ empty single double => exact .inr (.inr ⟨⟨empty, single, double⟩, rfl⟩)

theorem components_eq (path : List Char) : components path = lead path ++ innerComponents path := by
  obtain ⟨rfl, -⟩ | ⟨rest, rfl, found⟩ | ⟨c, piece, more, relative, found⟩ := pieces_cases path
  · rfl
  · rw [components, lead, innerComponents, found, List.head?_cons, if_pos rfl]
    cases some : pieces rest with
    | nil => exact absurd some (FileTree.pieces_ne_nil rest)
    | cons piece more => rfl
  · rw [components, lead, innerComponents, found, if_neg relative, List.head?_cons]
    by_cases dot : c :: piece = ['.']
    · rw [dot, if_pos rfl]
      rfl
    · rw [if_neg fun same => dot (Option.some.inj same), List.nil_append, List.filterMap_cons]
      split
      next h => cases h
      next h => cases h
      next h => cases h
      next h => cases h; exact absurd rfl dot
      next h => cases h; cases innerComponent? (c :: piece) <;> rfl

theorem lead_cases (path : List Char) : lead path = [] ∨ lead path = [.root] ∨ lead path = [.current] := by
  unfold lead
  split
  · exact .inr (.inl rfl)
  · split
    · exact .inr (.inr rfl)
    · exact .inl rfl

theorem lead_eq_nil_iff : lead path = [] ↔ path.head? ≠ some '/' ∧ (pieces path).head? ≠ some ['.'] := by
  unfold lead
  split <;> simp_all

/-- What follows a slash has no part in it. -/
theorem lead_append_slash (a b : List Char) : lead (a ++ '/' :: b) = lead (a ++ ['/']) := by
  unfold lead
  rw [pieces_append_slash, pieces_append_slash, List.head?_append_of_ne_nil _ (FileTree.pieces_ne_nil a),
    List.head?_append_of_ne_nil _ (FileTree.pieces_ne_nil a)]
  cases a <;> rfl

theorem components_append_slash (a b : List Char) :
    components (a ++ '/' :: b) = components (a ++ ['/']) ++ innerComponents b := by
  have inner (b : List Char) : innerComponents (a ++ '/' :: b) = innerComponents a ++ innerComponents b := by
    rw [innerComponents, pieces_append_slash, List.filterMap_append]
    rfl
  have none : innerComponents [] = [] := rfl
  rw [components_eq, components_eq, lead_append_slash, inner, inner, none, List.append_nil, List.append_assoc]

/-- A slash behind a path goes nowhere. -/
theorem components_concat_slash (some : a ≠ []) : components (a ++ ['/']) = components a := by
  have same : lead (a ++ ['/']) = lead a := by
    unfold lead
    rw [pieces_append_slash, List.head?_append_of_ne_nil _ (FileTree.pieces_ne_nil a),
      List.head?_append_of_ne_nil _ some]
  rw [components_eq, components_eq, same, innerComponents, pieces_append_slash, List.filterMap_append]
  exact congrArg (lead a ++ ·) (List.append_nil _)

end Pieces

section Names

variable {name : List Char} {dir path : String}

theorem mem_innerComponents {c : Component} (mem : c ∈ innerComponents name) : c = .parent ∨ c.isOrdinary = true := by
  obtain ⟨piece, -, shown⟩ := List.mem_filterMap.1 mem
  obtain ⟨-, given⟩ | ⟨-, given⟩ | ⟨-, given⟩ := innerComponent?_cases piece <;> cases given.symm.trans shown
  · exact .inl rfl
  · exact .inr rfl

theorem parent_mem_innerComponents : .parent ∈ innerComponents name ↔ ['.', '.'] ∈ name.splitOn '/' := by
  rw [innerComponents, pieces_eq_splitOn, List.mem_filterMap]
  refine ⟨fun ⟨piece, mem, given⟩ => ?_, fun mem => ⟨_, mem, rfl⟩⟩
  obtain ⟨-, none⟩ | ⟨rfl, -⟩ | ⟨-, other⟩ := innerComponent?_cases piece
  · cases none.symm.trans given
  · exact mem
  · cases other.symm.trans given

theorem components_of_lead (none : lead name = []) : components name = innerComponents name := by
  rw [components_eq, none, List.nil_append]

theorem lead_eq_nil_iff_head? :
    lead name = [] ↔ (components name).head? ≠ some .root ∧ (components name).head? ≠ some .current := by
  constructor
  · intro none
    rw [components_of_lead none]
    have inner {c : Component} (first : (innerComponents name).head? = some c) :=
      mem_innerComponents (List.mem_of_head? first)
    constructor <;> (intro first; have := inner first; simp [Component.isOrdinary] at this)
  · rw [components_eq]
    obtain none | root | dot := lead_cases name
    · exact fun _ => none
    · simp [root]
    · simp [dot]

/-- All components are ordinary where none stands for the root, for a dot in front, or for a step up. -/
theorem ordinary_iff :
    (∀ c ∈ components name, c.isOrdinary = true) ↔ lead name = [] ∧ .parent ∉ components name := by
  constructor
  · intro ordinary
    have only {c : Component} (special : c.isOrdinary = false) : c ∉ components name := fun mem =>
      Bool.false_ne_true (special.symm.trans (ordinary c mem))
    refine ⟨lead_eq_nil_iff_head?.2 ⟨fun first => ?_, fun first => ?_⟩, only rfl⟩
    · exact only rfl (List.mem_of_head? first)
    · exact only rfl (List.mem_of_head? first)
  · rintro ⟨none, up⟩ c mem
    refine (mem_innerComponents (components_of_lead none ▸ mem)).resolve_left ?_
    rintro rfl
    exact up mem

/-- A name leads somewhere from the place where it stands, not from the root, and never up. -/
structure Confined (name : List Char) : Prop where
  somewhere : ∃ piece ∈ name.splitOn '/', piece ≠ [] ∧ piece ≠ ['.']
  relative : name.head? ≠ some '/'
  onward : (name.splitOn '/').head? ≠ some ['.']
  within : ['.', '.'] ∉ name.splitOn '/'

/-- Ordinary components are all that a name may have. -/
theorem confined_iff :
    Confined name ↔ components name ≠ [] ∧ ∀ c ∈ components name, c.isOrdinary = true := by
  have leads : lead name = [] ↔ name.head? ≠ some '/' ∧ (name.splitOn '/').head? ≠ some ['.'] := by
    rw [lead_eq_nil_iff, pieces_eq_splitOn]
  have some : innerComponents name ≠ [] ↔ ∃ piece ∈ name.splitOn '/', piece ≠ [] ∧ piece ≠ ['.'] := by
    rw [innerComponents, pieces_eq_splitOn, ne_eq, List.filterMap_eq_nil_iff]
    simp only [not_forall, exists_prop]
    refine exists_congr fun piece => and_congr_right fun _ => ?_
    obtain ⟨rfl | rfl, none⟩ | ⟨rfl, up⟩ | ⟨⟨empty, single, -⟩, given⟩ := innerComponent?_cases piece
    · simp [none]
    · simp [none]
    · simp [up]
    · simp [given, empty, single]
  rw [ordinary_iff]
  constructor
  · rintro ⟨somewhere, relative, onward, within⟩
    have none := leads.2 ⟨relative, onward⟩
    rw [components_of_lead none, parent_mem_innerComponents]
    exact ⟨some.2 somewhere, none, within⟩
  · rintro ⟨given, none, up⟩
    rw [components_of_lead none] at given up
    rw [parent_mem_innerComponents] at up
    exact ⟨some.1 given, (leads.1 none).1, (leads.1 none).2, up⟩

theorem exists_names {cs : List Component} (ordinary : ∀ c ∈ cs, c.isOrdinary = true) :
    ∃ names : List (List Char), cs = names.map .ordinary := by
  induction cs with
  | nil => exact ⟨[], rfl⟩
  | cons c cs ih =>
    obtain ⟨names, rfl⟩ := ih fun d mem => ordinary d (List.mem_cons_of_mem c mem)
    have first := ordinary c List.mem_cons_self
    cases c with
    | ordinary name => exact ⟨name :: names, rfl⟩
    | root | current | parent => cases first

theorem Confined.exists_names (h : Confined name) :
    ∃ names : List (List Char), names ≠ [] ∧ components name = names.map .ordinary := by
  obtain ⟨some, ordinary⟩ := confined_iff.1 h
  obtain ⟨names, shown⟩ := CommandLine.exists_names ordinary
  refine ⟨names, ?_, shown⟩
  rintro rfl
  exact some shown

theorem pathInDir?_eq_some_iff {name : String} :
    pathInDir? dir name = some path ↔ Confined name.toList ∧ path = join dir name := by
  rw [confined_iff]
  unfold pathInDir?
  simp only [Bool.and_eq_true, Bool.not_eq_true', List.isEmpty_eq_false_iff, List.all_eq_true]
  split
  · rename_i inside
    rw [Option.some.injEq, eq_comm (a := path), and_iff_right inside]
  · rename_i outside
    exact ⟨fun h => (by cases h), fun h => absurd h.1 outside⟩

/-- In the path of a file, the components of its name follow those of the directory. -/
theorem components_join {name : String} (confined : Confined name.toList) :
    components (join dir name).toList = components dir.toList ++ components name.toList := by
  rw [components_of_lead (ordinary_iff.1 (confined_iff.1 confined).2).1, join]
  rcases List.eq_nil_or_concat dir.toList with none | ⟨before, last, ends⟩
  · have direct : [].getLast?.all (· == '/') = true := rfl
    rw [none, if_pos direct, String.toList_append, none, List.nil_append,
      components_of_lead (ordinary_iff.1 (confined_iff.1 confined).2).1]
    rfl
  · rw [ends, List.concat_eq_append, List.getLast?_concat, Option.all_some]
    by_cases slash : last = '/'
    · subst slash
      rw [if_pos (beq_self_eq_true '/'), String.toList_append, ends, List.concat_eq_append, List.append_assoc,
        ← components_append_slash]
      rfl
    · rw [if_neg (by simpa using slash), String.toList_append, String.toList_append, ends, List.concat_eq_append,
        ← components_concat_slash (by simp : before ++ [last] ≠ []), ← components_append_slash]
      simp

end Names

section NormalForm

/-- A path in normal form, and one component further. A step up takes back a name and stays at the root. -/
def Component.onto (parts : List Component) : Component → List Component
  | .current => parts
  | .parent =>
    match parts.getLast? with
    | some (.ordinary _) => parts.dropLast
    | some .root => parts
    | _ => parts ++ [.parent]
  | c => parts ++ [c]

/-- Where a path leads by its text alone. -/
def normalise (path : String) : List Component := (components path.toList).foldl Component.onto []

/-- A path leads to a place strictly below that of another, which is reached from there through names alone. -/
def Below (dir path : String) : Prop :=
  ∃ names : List (List Char), names ≠ [] ∧ normalise path = normalise dir ++ names.map .ordinary

theorem foldl_onto_ordinary (names : List (List Char)) (parts : List Component) :
    (names.map Component.ordinary).foldl Component.onto parts = parts ++ names.map .ordinary := by
  induction names generalizing parts with
  | nil => simp
  | cons name names ih =>
    rw [List.map_cons, List.foldl_cons, ih]
    show parts ++ [.ordinary name] ++ _ = _
    rw [List.append_assoc]
    rfl

/-- The path of a file leads to its name, from where the directory leads. -/
theorem normalise_join {dir name : String} (confined : Confined name.toList) :
    normalise (join dir name) = normalise dir ++ components name.toList := by
  obtain ⟨names, -, shown⟩ := confined.exists_names
  rw [normalise, components_join confined, List.foldl_append, shown, foldl_onto_ordinary]
  rfl

/-- A file that is accepted lies below the directory. -/
theorem below_of_pathInDir? {dir name path : String} (accepted : pathInDir? dir name = some path) :
    Below dir path := by
  obtain ⟨confined, rfl⟩ := pathInDir?_eq_some_iff.1 accepted
  obtain ⟨names, filled, shown⟩ := confined.exists_names
  exact ⟨names, filled, by rw [normalise_join confined, shown]⟩

end NormalForm

end Pseudocode.CommandLine
