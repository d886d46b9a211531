import Pseudocode.Proofs.Files.History

/-!
Reading back what was saved. The text of a file ends every line with a line feed, so each line is read again for
itself (`Text.lines_unlines`): as the pieces between the line feeds that it has, each without the carriage return
at its end. A line comes back as it was if there is one such piece and nothing is dropped from it.
-/

namespace Pseudocode

namespace Text

theorem dropReturn_eq_self_iff {line : List Char} : dropReturn line = line ↔ line.getLast? ≠ some '\r' := by
  rw [List.getLast?_eq_head?_reverse]
  cases reversed : line.reverse with
  | nil => simp [dropReturn, reversed]
  | cons last rest =>
    have whole : line = rest.reverse ++ [last] := by
      rw [← List.reverse_reverse line, reversed, List.reverse_cons]
    by_cases return_ : last = '\r'
    · subst return_
      simp [dropReturn, whole]
    · simp [dropReturn, reversed, return_]

/-- What stands behind a line feed is split for itself. -/
theorem splitLines_append (line text rest : List Char) :
    splitLines line (text ++ '\n' :: rest) = splitLines line (text ++ ['\n']) ++ splitLines [] rest := by
  induction text generalizing line with
  | nil => simp [splitLines]
  | cons c text ih =>
    by_cases feed : c = '\n'
    · simp [splitLines, feed, ih []]
    · simp [splitLines, feed, ih (c :: line)]

/-- There is a piece before each line feed. -/
theorem length_splitLines (line text : List Char) :
    (splitLines line (text ++ ['\n'])).length = text.count '\n' + 1 := by
  induction text generalizing line with
  | nil => simp [splitLines]
  | cons c text ih =>
    by_cases feed : c = '\n'
    · simp [splitLines, feed, ih []]
    · simp [splitLines, feed, ih (c :: line)]

theorem splitLines_of_not_mem {text : List Char} (plain : '\n' ∉ text) (line : List Char) :
    splitLines line (text ++ ['\n']) = [dropReturn (line.reverse ++ text)] := by
  induction text generalizing line with
  | nil => simp [splitLines]
  | cons c text ih =>
    obtain ⟨first, others⟩ := not_or.1 (mt List.mem_cons.2 plain)
    simp [splitLines, Ne.symm first, ih others]

/-- The lines that one line becomes when it is written and read. -/
def reread (line : String) : List String := lines (line ++ "\n")

theorem length_reread (line : String) : (reread line).length = line.toList.count '\n' + 1 := by
  simp [reread, lines, length_splitLines]

theorem reread_eq_self_iff (line : String) :
    reread line = [line] ↔ '\n' ∉ line.toList ∧ line.toList.getLast? ≠ some '\r' := by
  by_cases plain : '\n' ∈ line.toList
  · refine iff_of_false (fun same => ?_) fun h => h.1 plain
    have one : line.toList.count '\n' + 1 = 1 := by rw [← length_reread, same, List.length_singleton]
    exact List.count_eq_zero.1 (Nat.succ.inj one) plain
  · have split := splitLines_of_not_mem plain []
    rw [← dropReturn_eq_self_iff, and_iff_right plain, reread, lines, String.toList_append]
    change (splitLines [] (line.toList ++ ['\n'])).map String.ofList = [line] ↔ _
    rw [split, List.map_singleton, List.reverse_nil, List.nil_append, List.cons.injEq, and_iff_left rfl]
    rw [← String.toList_inj, String.toList_ofList]

/-- Every line is read again for itself. -/
theorem lines_unlines (ls : List String) : lines (unlines ls) = ls.flatMap reread := by
  induction ls with
  | nil => simp [unlines, lines, splitLines]
  | cons line ls ih =>
    have text : (unlines (line :: ls)).toList = line.toList ++ '\n' :: (unlines ls).toList := by
      simp [unlines, String.toList_join]
    rw [List.flatMap_cons, ← ih, lines, text, splitLines_append, List.map_append]
    simp [reread, lines]

theorem length_le_flatMap {α : Type} {f : α → List α} (some_ : ∀ a, 1 ≤ (f a).length) (l : List α) :
    l.length ≤ (l.flatMap f).length := by
  induction l with
  | nil => exact Nat.le_refl 0
  | cons a l ih =>
    have one := some_ a
    rw [List.flatMap_cons, List.length_append, List.length_cons]
    omega

/-- If every element is replaced by at least one, and nothing changes, each is replaced by itself. -/
theorem flatMap_eq_self_iff {α : Type} {f : α → List α} (some_ : ∀ a, 1 ≤ (f a).length) (l : List α) :
    l.flatMap f = l ↔ ∀ a ∈ l, f a = [a] := by
  induction l with
  | nil => simp
  | cons a l ih =>
    rw [List.flatMap_cons, List.forall_mem_cons, ← ih]
    constructor
    · intro same
      have atLeast := length_le_flatMap some_ l
      have sizes := congrArg List.length same
      rw [List.length_append, List.length_cons] at sizes
      have one := some_ a
      exact List.append_inj same (by rw [List.length_singleton]; omega)
    · rintro ⟨first, others⟩
      rw [first, others]
      rfl

theorem lines_unlines_eq_self_iff (ls : List String) :
    lines (unlines ls) = ls ↔ ∀ line ∈ ls, '\n' ∉ line.toList ∧ line.toList.getLast? ≠ some '\r' := by
  have some_ (line : String) : 1 ≤ (reread line).length := by
    rw [length_reread]
    exact Nat.le_add_left ..
  rw [lines_unlines, flatMap_eq_self_iff some_]
  simp only [reread_eq_self_iff]

end Text

/-- Opening a closed file to be read, with the content that a buffer has, gives it the lines of the buffer if none
of them has a line feed in it or a carriage return at its end, and only then. An empty file stays empty, and an
empty line stays where it is, also at the end, whatever becomes of the others. -/
theorem reloaded_lines_eq_iff (b : FileBuffer) {s : FileStore} {name : String} (closed : s.isOpen name = false) :
    ∃ s' b', s.openFile name .read (some b.contents) = .ok s' ∧ s'.get? name = some b' ∧ b'.mode = some .read ∧
      b'.cursor = 0 ∧
      (b'.lines = b.lines ↔ ∀ line ∈ b.lines, '\n' ∉ line.toList ∧ line.toList.getLast? ≠ some '\r') ∧
      (b.lines = #[] → b'.lines = #[]) ∧
      ∀ before behind, b.lines.toList = before ++ "" :: behind →
        b'.lines.toList = Text.lines (Text.unlines before) ++ "" :: Text.lines (Text.unlines behind) := by
  have loaded : s.openFile name .read (some b.contents) = .ok (s.put name
      { (s.get? name).getD .empty with lines := (Text.lines b.contents).toArray, cursor := 0, mode := some .read }) := by
    simp [FileStore.openFile, closed]
  refine ⟨_, _, loaded, ((FileStore.sets_put s name _).get? name).trans (if_pos rfl), rfl, rfl, ?_, ?_, ?_⟩
  · rw [← Array.toList_inj, List.toList_toArray, FileBuffer.contents, Text.lines_unlines_eq_self_iff]
    simp
  · intro none
    simp [FileBuffer.contents, none, Text.lines_unlines]
  · intro before behind whole
    have empty : Text.reread "" = [""] := by decide
    simp [FileBuffer.contents, whole, Text.lines_unlines, empty]

/-- Empty lines come back, a carriage return at the end of a line does not. -/
theorem blankLines_reloaded :
    FileStore.empty.isOpen "f" = false ∧
    (∃ s' b', FileStore.empty.openFile "f" .read (some (⟨#["a", "", ""], none, 0, true⟩ : FileBuffer).contents) = .ok s' ∧
      s'.get? "f" = some b' ∧ b'.lines = #["a", "", ""]) ∧
    ∃ s' b', FileStore.empty.openFile "f" .read (some (⟨#["a\r", ""], none, 0, true⟩ : FileBuffer).contents) = .ok s' ∧
      s'.get? "f" = some b' ∧ b'.lines ≠ #["a\r", ""] := by
  have closed : FileStore.empty.isOpen "f" = false := rfl
  refine ⟨closed, ?_, ?_⟩
  · obtain ⟨s', b', loaded, found, -, -, same, -⟩ := reloaded_lines_eq_iff ⟨#["a", "", ""], none, 0, true⟩ closed
    exact ⟨s', b', loaded, found, same.2 (by simp)⟩
  · obtain ⟨s', b', loaded, found, -, -, same, -⟩ := reloaded_lines_eq_iff ⟨#["a\r", ""], none, 0, true⟩ closed
    exact ⟨s', b', loaded, found, same.not.2 (by simp)⟩

end Pseudocode
