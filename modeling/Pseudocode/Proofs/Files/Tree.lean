import Pseudocode.CommandLine.FileTree
import Pseudocode.Proofs.Files.History

/-!
What is written into a tree of files. A path leads to a place in the tree (`FileTree.Leads`), and where it leads does
not depend on the contents of files. Writing changes what is read at that place and nowhere else, and it makes no
directories (`FileTree.write_eq_ok`).
-/

namespace Pseudocode.CommandLine.FileTree

variable {t t' : FileTree} {path content : String} {route : Route}

/-- The directory of a path is there, and its last piece is a name. -/
def Leads (t : FileTree) (path : String) (route : Route) : Prop :=
  ∃ place last, t.resolve path = .ok (place, last) ∧ last ≠ [] ∧ last ≠ ['.'] ∧ last ≠ ['.', '.'] ∧
    child place last = .ok (.inside route)

theorem Leads.unique {route' : Route} (h : t.Leads path route) (h' : t.Leads path route') : route = route' := by
  obtain ⟨place, last, resolved, -, -, -, there⟩ := h
  obtain ⟨place', last', resolved', -, -, -, there'⟩ := h'
  cases resolved.symm.trans resolved'
  cases there.symm.trans there'
  rfl

theorem bind_eq_ok {ε α β : Type} {x : Except ε α} {f : α → Except ε β} {b : β} (h : (x >>= f) = .ok b) :
    ∃ a, x = .ok a ∧ f a = .ok b := by
  cases x with
  | error e => cases h
  | ok a => exact ⟨a, rfl, h⟩

theorem read_eq_ok (h : t.read path = .ok content) : ∃ route, t.Leads path route ∧ t.file? route = some content := by
  obtain ⟨⟨place, last⟩, resolved, h⟩ := bind_eq_ok h
  dsimp only at h
  split at h
  · cases h
  · cases h
  · cases h
  case h_4 given single double =>
    obtain ⟨next, there, h⟩ := bind_eq_ok h
    split at h
    · cases h
    case h_2 route =>
      split at h
      case h_1 text found =>
        cases h
        exact ⟨route, ⟨place, last, resolved, given, single, double, there⟩, found⟩
      · cases h

theorem read_of_leads (leads : t.Leads path route) (found : t.file? route = some content) :
    t.read path = .ok content := by
  obtain ⟨place, last, resolved, given, single, double, there⟩ := leads
  unfold read
  rw [resolved]
  dsimp only [bind, Except.bind]
  split
  · exact absurd rfl given
  · exact absurd rfl single
  · exact absurd rfl double
  · rw [there]
    dsimp only
    rw [found]
    rfl

/-- Two trees have the same directories. -/
def SameDirectories (t t' : FileTree) : Prop := ∀ route, t'.isDirectory route = t.isDirectory route

theorem isDirectory_iff : t.isDirectory route = true ↔
    route = [] ∨ ∃ file ∈ t.files.map Prod.fst, route <+: file ∧ route.length < file.length := by
  simp [isDirectory]

theorem isDirectory_of_below {above : Route} (h : t.isDirectory route = true) (below : above <+: route) :
    t.isDirectory above = true := by
  rw [isDirectory_iff] at h ⊢
  rcases h with rfl | ⟨file, mem, below', shorter⟩
  · exact .inl (List.prefix_nil.1 below)
  · exact .inr ⟨file, mem, below.trans below', Nat.lt_of_le_of_lt below.length_le shorter⟩

theorem enter_eq_ok {place : Place} :
    t.enter place = .ok () ↔ ∀ route, place = .inside route → t.isDirectory route = true := by
  unfold enter
  cases place with
  | outside => simp
  | inside route =>
    by_cases here : t.isDirectory route = true
    · simp [here]
    · simp only [here, Bool.false_eq_true, if_false, Place.inside.injEq, forall_eq']
      split <;> simp

/-- A walk ends in a directory. -/
theorem walk_isDirectory {place : Place} {ps : List (List Char)} (begun : t.enter place = .ok ())
    {last : Place} (h : t.walk place ps = .ok last) : t.enter last = .ok () := by
  fun_induction walk t place ps with
  | case1 place =>
    cases h
    exact begun
  | case2 place rest ih => exact ih begun h
  | case3 place rest ih => exact ih begun h
  | case4 place rest ih =>
    refine ih (enter_eq_ok.2 fun route there => ?_) h
    match place with
    | .outside | .inside [] => cases there
    | .inside (name :: rest) =>
      cases there
      have below := List.dropLast_prefix (name :: rest)
      exact isDirectory_of_below (enter_eq_ok.1 begun _ rfl) below
  | case5 place name rest none single double ih =>
    obtain ⟨next, there, h⟩ := bind_eq_ok h
    obtain ⟨⟨⟩, entered, h⟩ := bind_eq_ok h
    exact ih next entered h

/-- Walks lead to the same place where there are the same directories. -/
theorem walk_of_same (same : SameDirectories t t') {place last : Place} {ps : List (List Char)}
    (h : t.walk place ps = .ok last) : t'.walk place ps = .ok last := by
  fun_induction walk t place ps with
  | case1 place => exact h
  | case2 place rest ih => exact ih h
  | case3 place rest ih => exact ih h
  | case4 place rest ih => exact ih h
  | case5 place name rest none single double ih =>
    obtain ⟨next, there, h⟩ := bind_eq_ok h
    obtain ⟨⟨⟩, entered, h⟩ := bind_eq_ok h
    have entered' : t'.enter next = .ok () := enter_eq_ok.2 fun route inside => by
      rw [same]
      exact enter_eq_ok.1 entered route inside
    rw [walk, there]
    · show (t'.enter next >>= _) = Except.ok last
      rw [entered']
      exact ih next h
    all_goals assumption

theorem resolve_eq_ok {place : Place} {last : List Char} : t.resolve path = .ok (place, last) ↔
    checkPath path = .ok () ∧ t.walk (origin path.toList).1 (origin path.toList).2.dropLast = .ok place ∧
      (origin path.toList).2.getLast?.getD [] = last := by
  constructor
  · intro h
    obtain ⟨⟨⟩, checked, h⟩ := bind_eq_ok h
    obtain ⟨there, walked, h⟩ := bind_eq_ok h
    cases h
    exact ⟨checked, walked, rfl⟩
  · rintro ⟨checked, walked, rfl⟩
    unfold resolve
    rw [checked]
    show (t.walk (origin path.toList).1 (origin path.toList).2.dropLast >>= _) = Except.ok _
    rw [walked]
    rfl

theorem Leads.of_same (same : SameDirectories t t') (h : t.Leads path route) : t'.Leads path route := by
  obtain ⟨place, last, resolved, rest⟩ := h
  obtain ⟨checked, walked, ends⟩ := resolve_eq_ok.1 resolved
  exact ⟨place, last, resolve_eq_ok.2 ⟨checked, walk_of_same same walked, ends⟩, rest⟩

theorem child_eq_ok {place : Place} {name : List Char} (h : child place name = .ok (.inside route)) :
    ∃ above, place = .inside above ∧ route = above ++ [name] := by
  unfold child at h
  split at h
  · cases h
  · cases place with
    | outside => cases h
    | inside above =>
      cases h
      exact ⟨above, rfl, rfl⟩

theorem enter_origin (path : List Char) : t.enter (origin path).1 = .ok () := by
  unfold origin
  split <;> rfl

/-- Above a file there are directories only. -/
theorem Leads.above (h : t.Leads path route) : t.isDirectory route.dropLast = true := by
  obtain ⟨place, last, resolved, -, -, -, there⟩ := h
  obtain ⟨-, walked, -⟩ := resolve_eq_ok.1 resolved
  obtain ⟨above, rfl, rfl⟩ := child_eq_ok there
  rw [List.dropLast_concat]
  exact enter_eq_ok.1 (walk_isDirectory (enter_origin _) walked) above rfl

theorem pieces_ne_nil (cs : List Char) : pieces cs ≠ [] := by
  fun_cases pieces cs <;> simp_all

theorem origin_ne_nil (path : List Char) : (origin path).2 ≠ [] := by
  unfold origin
  split <;> exact pieces_ne_nil _

/-- A path ends in a slash if and only if nothing is left of it behind the last one. -/
theorem slash_iff (ps : List (List Char)) :
    (ps.reverse.dropWhile List.isEmpty).length < ps.length ↔ ps ≠ [] ∧ ps.getLast?.getD [] = [] := by
  have length : ps.length = ps.reverse.length := List.length_reverse.symm
  rw [← List.head?_reverse, ← List.reverse_ne_nil_iff, length]
  cases ps.reverse with
  | nil => simp
  | cons last before =>
    cases last with
    | nil =>
      have le := (List.dropWhile_suffix List.isEmpty (l := before)).length_le
      simp
      omega
    | cons c cs => simp

theorem puts_putIn (route : Route) (content : String) : Puts route content (putIn route content) where
  nil := rfl
  cons _ _ := by simp [putIn]

/-- A file that is put where there are directories above makes no directory. -/
theorem same_putIn (above : t.isDirectory route.dropLast = true) (content : String) :
    SameDirectories t ⟨putIn route content t.files⟩ := by
  intro other
  rw [Bool.eq_iff_iff, isDirectory_iff, isDirectory_iff, (puts_putIn route content).keys]
  split
  · rfl
  · constructor
    · rintro (rfl | ⟨file, mem, below, shorter⟩)
      · exact .inl rfl
      · rcases List.mem_append.1 mem with mem | new
        · exact .inr ⟨file, mem, below, shorter⟩
        · -- A directory above the new file is one already.
          rw [List.mem_singleton.1 new] at below shorter
          have above' := List.dropLast_prefix route
          have length : other.length ≤ route.dropLast.length := by
            rw [List.length_dropLast]
            omega
          have inside : other <+: route.dropLast := List.prefix_of_prefix_length_le below above' length
          exact isDirectory_iff.1 (isDirectory_of_below above inside)
    · rintro (rfl | ⟨file, mem, below, shorter⟩)
      · exact .inl rfl
      · exact .inr ⟨file, List.mem_append_left _ mem, below, shorter⟩

theorem write_eq_ok (h : t.write path content = .ok t') :
    ∃ route, t.Leads path route ∧ SameDirectories t t' ∧
      ∀ other, t'.file? other = if other = route then some content else t.file? other := by
  obtain ⟨⟨⟩, checked, h⟩ := bind_eq_ok h
  dsimp only at h
  split at h
  · obtain ⟨_, -, h⟩ := bind_eq_ok h
    cases h
  case isFalse slash =>
    obtain ⟨⟨place, last⟩, resolved, h⟩ := bind_eq_ok h
    dsimp only at h
    split at h
    · cases h
    · cases h
    case h_3 single double =>
      obtain ⟨next, there, h⟩ := bind_eq_ok h
      split at h
      · cases h
      case h_2 route =>
        split at h
        · cases h
        · cases h
          have leads : t.Leads path route := by
            refine ⟨place, last, resolved, fun none => ?_, single, double, there⟩
            obtain ⟨-, -, ends⟩ := resolve_eq_ok.1 resolved
            exact slash ((slash_iff _).2 ⟨origin_ne_nil _, ends.trans none⟩)
          exact ⟨route, leads, same_putIn leads.above content, (puts_putIn route content).lookup t.files⟩

theorem write_of_leads (leads : t.Leads path route) (file : t.isDirectory route = false) (content : String) :
    ∃ t', t.write path content = .ok t' := by
  obtain ⟨place, last, resolved, given, single, double, there⟩ := leads
  obtain ⟨checked, -, rfl⟩ := resolve_eq_ok.1 resolved
  refine ⟨⟨putIn route content t.files⟩, ?_⟩
  have slash : ¬ ((origin path.toList).2.reverse.dropWhile List.isEmpty).length < (origin path.toList).2.length :=
    fun slash => given ((slash_iff _).1 slash).2
  unfold write
  rw [checked]
  show (if ((origin path.toList).2.reverse.dropWhile List.isEmpty).length < (origin path.toList).2.length then _
    else _) = Except.ok _
  rw [if_neg slash]
  show (t.resolve path >>= _) = Except.ok _
  rw [resolved]
  dsimp only [bind, Except.bind]
  split
  · exact absurd ‹_› single
  · exact absurd ‹_› double
  · rw [there]
    show (if t.isDirectory route then _ else _) = Except.ok _
    rw [file]
    rfl

end Pseudocode.CommandLine.FileTree
