import Pseudocode.Proofs.Lexing.Source
import Pseudocode.Proofs.Reading.Simulation

/-!
Where syntax errors are found. A text that cannot be split into tokens is refused at one of its places, and a
list of tokens is refused at the place of one of them (`errors_point_into_source`).
-/

namespace Pseudocode

namespace Location

/-- A place in a text: one of its lines, and the column of a character of that line or the one behind it. -/
def Inside (l : Location) (text : List Char) : Prop :=
  ∃ line, 1 ≤ l.line ∧ (text.splitOn '\n')[l.line - 1]? = some line ∧ 1 ≤ l.column ∧ l.column ≤ line.length + 1

theorem splitOn_line (text : List Char) : ('\n' :: text).splitOn '\n' = [] :: text.splitOn '\n' := by
  rw [List.splitOn_eq_splitOnP, List.splitOnP_cons_eq_if_modifyHead]
  rfl

theorem splitOn_other {c : Char} (other : c ≠ '\n') (text : List Char) :
    (c :: text).splitOn '\n' = (text.splitOn '\n').modifyHead (c :: ·) := by
  rw [List.splitOn_eq_splitOnP, List.splitOnP_cons_eq_if_modifyHead, if_neg (by simpa using other)]
  rfl

/-- Where walking over some characters ends: `k` lines further, and in that line. -/
theorem after_inside (l : Location) (before more : List Char) (counted : 1 ≤ l.column) :
    ∃ k line, ((before ++ more).splitOn '\n')[k]? = some line ∧ (l.after before).line = l.line + k ∧
      1 ≤ (l.after before).column ∧ (l.after before).column ≤ (if k = 0 then l.column else 1) + line.length := by
  induction before generalizing l with
  | nil =>
    obtain ⟨line, lines, same⟩ := List.exists_cons_of_ne_nil (List.splitOn_ne_nil '\n' more)
    refine ⟨0, line, by simp [same], rfl, counted, Nat.le_add_right _ _⟩
  | cons c before ih =>
    by_cases feed : c = '\n'
    · have next : l.after (c :: before) = (⟨l.line + 1, 1⟩ : Location).after before := by
        rw [feed]
        rfl
      obtain ⟨k, line, here, down, first, last⟩ := ih ⟨l.line + 1, 1⟩ (Nat.le_refl 1)
      rw [next, feed, List.cons_append, splitOn_line]
      refine ⟨k + 1, line, here, ?_, first, ?_⟩
      · rw [down]
        exact Nat.add_right_comm l.line 1 k
      · simpa using last
    · have next : l.after (c :: before) = (⟨l.line, l.column + 1⟩ : Location).after before := by
        show (l.past c).after before = _
        rw [past, if_neg feed]
      obtain ⟨k, line, here, down, first, last⟩ := ih ⟨l.line, l.column + 1⟩ (Nat.le_add_left 1 _)
      rw [next, List.cons_append, splitOn_other feed]
      cases k with
      | zero =>
        refine ⟨0, c :: line, ?_, down, first, ?_⟩
        · rw [List.getElem?_modifyHead, here]
          rfl
        · simp only [if_true, List.length_cons] at last ⊢
          omega
      | succ k =>
        refine ⟨k + 1, line, ?_, down, first, by simpa using last⟩
        rw [List.getElem?_modifyHead, here]
        rfl

theorem behind_inside {before text : List Char} (h : before <+: text) : (behind before).Inside text := by
  obtain ⟨more, rfl⟩ := h
  obtain ⟨k, line, here, down, first, last⟩ := after_inside start before more (Nat.le_refl 1)
  rw [start_after] at down first last
  have column : (if k = 0 then start.column else 1) = 1 := by split <;> rfl
  refine ⟨line, ?_, ?_, first, ?_⟩
  · rw [down]
    exact Nat.le_add_right 1 k
  · rw [down]
    show (_ : List _)[1 + k - 1]? = _
    rwa [Nat.add_sub_cancel_left]
  · rw [column] at last
    omega

end Location

variable {source : String} {ts : List Token} {e : SyntaxError}

/-- What is read of tokens stands where they stand, and so does what is wrong with them. -/
theorem Program.ofTokens_placed (ts : List Token) :
    (∀ p, ofTokens ts = .ok p → ∀ st ∈ p.statements, st.Fits (Parser.Placed ts) maxNesting) ∧
      ∀ e, ofTokens ts = .error e → Parser.Placed ts e.location := by
  obtain ⟨s, parser, stream, placed⟩ := Parser.exists_source ts
  rcases placed with none | placed
  · -- Without tokens the input may end nowhere, but then nothing is wrong.
    have empty : ofTokens ts = .ok ⟨[]⟩ := by
      rw [ofTokens_eq, stream, none]
      rfl
    rw [empty]
    refine ⟨fun p read => ?_, fun e read => by cases read⟩
    cases read
    exact List.forall_mem_nil _
  · have ends := Parser.program_sim placed 0 (Nat.zero_le _) (Nat.le_refl _) trivial
    rw [ofTokens, parser]
    generalize Reader.program s.last.location (s.rest 0) = found, Parser.program (s.state 0 0 0) = found' at ends
    cases ends with
    | ok p fits =>
      refine ⟨fun q read st mem => ?_, fun e read => by cases read⟩
      cases read
      exact fits st mem
    | error e there =>
      refine ⟨fun p read => (by cases read), fun e' read => ?_⟩
      cases read
      exact there

/-- A syntax error stands on a line of the source, at a character of that line or behind its last one; and
when a list of tokens is no program, the error stands where one of them does. -/
theorem errors_point_into_source :
    (∀ source e, Program.ofSource source = .error e → e.location.Inside source.toList) ∧
      ∀ ts e, Program.ofTokens ts = .error e → ∃ t ∈ ts, t.kind ≠ .comment ∧ e.location = t.location := by
  refine ⟨fun source e h => ?_, fun ts => (Program.ofTokens_placed ts).2⟩
  unfold Program.ofSource at h
  cases lexed : tokenize source with
  | error e' =>
    rw [lexed] at h
    cases h
    obtain ⟨here, first, same⟩ := tokenize_refused lexed
    rw [same]
    exact Location.behind_inside first
  | ok tokens =>
    rw [lexed] at h
    obtain ⟨t, mem, -, here⟩ := (Program.ofTokens_placed tokens).2 e h
    obtain ⟨before, first, same⟩ := (tokenize_eq_ok_iff.1 lexed).placed t mem
    rw [here, same]
    exact Location.behind_inside first

/-- What is missing at the end of the last line is missed behind its last character; without an end of input,
it is missed at the last token. -/
theorem missing_name_placed :
    Location.Inside ⟨2, 8⟩ "\nDECLARE".toList ∧
      ∃ t ∈ [(⟨.keyword, "DECLARE", ⟨4, 7⟩⟩ : Token)], t.kind ≠ .comment ∧ (⟨4, 7⟩ : Location) = t.location := by
  have tokens : tokenize "\nDECLARE" =
      .ok [⟨.newline, "\n", ⟨1, 1⟩⟩, ⟨.keyword, "DECLARE", ⟨2, 1⟩⟩, ⟨.endOfInput, "", ⟨2, 8⟩⟩] := rfl
  have text : Program.ofSource "\nDECLARE" = .error ⟨.expected "identifier" "end of input", ⟨2, 8⟩⟩ :=
    (Program.ofSource_eq tokens).trans rfl
  have token : Program.ofTokens [⟨.keyword, "DECLARE", ⟨4, 7⟩⟩] =
      .error ⟨.expected "identifier" "end of input", ⟨4, 7⟩⟩ :=
    (Program.ofTokens_eq _).trans rfl
  exact ⟨errors_point_into_source.1 _ _ text, errors_point_into_source.2 _ _ token⟩

end Pseudocode
