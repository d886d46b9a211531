import Pseudocode.Proofs.Layout.Readers
import Pseudocode.Proofs.Lexing.Lines

/-!
Carriage returns at the ends of lines. They are blanks there, or the last characters of comments, so they move
the ends of lines by one column and nothing else (`tokensAt_returned`); the program is the same, and so are the
errors, but for the columns of those at the end of a line (`line_ends_do_not_matter`).
-/

namespace Pseudocode

/-- A text whose lines end with a carriage return and a line feed. -/
def Text.returned (cs : List Char) : List Char := cs.flatMap fun c => if c = '\n' then ['\r', '\n'] else [c]

namespace Location

/-- The character at a place of a text that starts `here`. -/
def characterFrom (l here : Location) : List Char → Option Char
  | [] => .none
  | c :: cs => if here = l then some c else l.characterFrom (here.past c) cs

/-- The character at a place of a text, if one stands there. -/
def characterIn (l : Location) (text : List Char) : Option Char := l.characterFrom start text

/-- The place that stands for this one when carriage returns have been put before the line feeds of a text. -/
def returned (text : List Char) (l : Location) : Location :=
  if l.characterIn text = some '\n' then ⟨l.line, l.column + 1⟩ else l

/-- Characters lead on. -/
theorem after_cases (p : Location) (cs : List Char) :
    p.line < (p.after cs).line ∨ (p.after cs).line = p.line ∧ (p.after cs).column = p.column + cs.length := by
  induction cs generalizing p with
  | nil => exact .inr ⟨rfl, rfl⟩
  | cons c cs ih =>
    show p.line < ((p.past c).after cs).line ∨ ((p.past c).after cs).line = p.line ∧
      ((p.past c).after cs).column = p.column + (cs.length + 1)
    have later := ih (p.past c)
    rw [past] at later ⊢
    split at later <;> simp_all <;> omega

theorem after_cons_ne (p : Location) (c : Char) (cs : List Char) : p ≠ p.after (c :: cs) := by
  intro same
  have further := p.after_cases (c :: cs)
  rw [← same, List.length_cons] at further
  omega

theorem characterFrom_after (p : Location) (before rest : List Char) :
    (p.after before).characterFrom p (before ++ rest) = rest.head? := by
  induction before generalizing p with
  | nil =>
    cases rest with
    | nil => rfl
    | cons c rest => exact if_pos rfl
  | cons d before ih =>
    rw [List.cons_append, characterFrom, if_neg (p.after_cons_ne d before)]
    exact ih (p.past d)

theorem characterIn_after (before rest : List Char) :
    (start.after before).characterIn (before ++ rest) = rest.head? :=
  characterFrom_after start before rest

end Location

open Lexeme

/-- A token behind which a carriage return has been put, if it is the end of a line. -/
def Token.returned (t : Token) : Token :=
  if t.kind = .newline then { t with location := ⟨t.location.line, t.location.column + 1⟩ } else t

variable {p : Location} {cs u b : List Char} {ts : List Token} {e : SyntaxError}

theorem Text.returned_of_not_mem (one : '\n' ∉ cs) : returned cs = cs := by
  induction cs with
  | nil => rfl
  | cons c cs ih =>
    obtain ⟨other, others⟩ := not_or.1 (mt List.mem_cons.2 one)
    rw [returned, List.flatMap_cons, if_neg (Ne.symm other)]
    exact congrArg (c :: ·) (ih others)

theorem Text.returned_line (one : '\n' ∉ u) (b : List Char) :
    returned (u ++ '\n' :: b) = (u ++ ['\r']) ++ '\n' :: returned b := by
  have line := returned_of_not_mem one
  rw [returned] at line
  rw [returned, List.flatMap_append, line, List.flatMap_cons]
  simp [returned]

/-- What a token starts with. -/
theorem tokensAt_starts (h : tokensAt p cs = .ok ts) : ∀ t ∈ ts, t.kind ≠ .endOfInput →
    ∃ before c rest, cs = before ++ c :: rest ∧ t.location = p.after before ∧ (t.kind = .newline ↔ c = '\n') := by
  induction h using tokens_induction with
  | blank => exact List.forall_mem_singleton.2 fun other => absurd rfl other
  | lexeme p gap c rest x tail us blank dark found later ih =>
    obtain ⟨text, form, -⟩ := read_eq_ok_iff.1 found
    refine List.forall_mem_cons.2 ⟨fun _ => ⟨gap, c, rest, rfl, rfl, ?_⟩, fun t mem other => ?_⟩
    · exact form.newline_iff text
    · obtain ⟨before, d, behind, rfl, here, kinds⟩ := ih t mem other
      refine ⟨gap ++ x.raw ++ before, d, behind, ?_, ?_, kinds⟩
      · rw [text, List.append_assoc, List.append_assoc]
      · rw [here, Location.after_append, Location.after_append, List.append_assoc]

/-- What a text is refused for is no line feed. -/
theorem tokensAt_refuses (h : tokensAt p cs = .error e) :
    ∃ before c rest, cs = before ++ c :: rest ∧ e.location = p.after before ∧ c ≠ '\n' := by
  induction h using refusal_induction with
  | refused p gap c rest complaint blank dark failed =>
    refine ⟨gap, c, rest, rfl, rfl, ?_⟩
    rintro rfl
    cases failed
  | lexeme p gap c rest x tail e blank dark found later ih =>
    obtain ⟨before, d, behind, rfl, here, other⟩ := ih
    refine ⟨gap ++ x.raw ++ before, d, behind, ?_, ?_, other⟩
    · rw [(read_eq_ok_iff.1 found).lossless, List.append_assoc, List.append_assoc]
    · rw [here, Location.after_append, Location.after_append, List.append_assoc]

/-- A line has no end of a line in it. -/
theorem map_returned_of_line (h : tokensAt p cs = .ok ts) (one : '\n' ∉ cs) : ts.map Token.returned = ts := by
  refine List.map_congr_left (fun t mem => ?_) |>.trans (List.map_id ts)
  have other : t.kind ≠ .newline := by
    intro line
    obtain ⟨before, c, rest, rfl, -, kinds⟩ := tokensAt_starts h t mem (line ▸ nofun)
    exact one (kinds.1 line ▸ List.mem_append_right _ List.mem_cons_self)
  exact if_neg other

/-- Carriage returns move the ends of lines and change no other token. -/
theorem tokensAt_returned (p : Location) (cs : List Char) :
    tokensAt p (Text.returned cs) = List.map Token.returned <$> tokensAt p cs := by
  -- By induction on the number of characters, a line at a time.
  generalize size : cs.length = n
  induction n using Nat.strongRecOn generalizing p cs with
  | ind n ih =>
    by_cases more : '\n' ∈ cs
    · obtain ⟨u, b, rfl, one⟩ := List.eq_append_cons_of_mem more
      rw [Text.returned_line one]
      cases line : tokensAt p u with
      | error e =>
        rw [tokensAt_line_error (tokensAt_return_error line), tokensAt_line_error line]
        rfl
      | ok tokens =>
        obtain ⟨before, rfl, others⟩ := tokensAt_ends line
        have same : before.map Token.returned = before := by
          have all := map_returned_of_line line one
          rw [List.map_append] at all
          exact List.append_inj_left all (List.length_map _)
        have next : ((p.after u).past '\r').past '\n' = (p.after u).past '\n' := rfl
        have ends : p.after (u ++ ['\r']) = (p.after u).past '\r' := (Location.after_append p u ['\r']).symm
        have line' := tokensAt_return line
        rw [← ends] at line'
        have later := ih b.length (by simp at size; omega) ((p.after u).past '\n') b rfl
        rw [tokensAt_line line', tokensAt_line line, ends, next, later]
        cases tokensAt ((p.after u).past '\n') b with
        | error e => rfl
        | ok tokens =>
          show Except.ok _ = Except.ok ((before ++ _ :: tokens).map Token.returned)
          rw [List.map_append, same]
          rfl
    · rw [Text.returned_of_not_mem more]
      cases line : tokensAt p cs with
      | error e => rfl
      | ok tokens => exact congrArg Except.ok (map_returned_of_line line more).symm

/-- The places of a source and of the source with carriage returns. -/
def returns (text : List Char) : Parallel where
  place := Location.returned text
  node := id
  finish := Location.start.after text
  Skips _ _ := False
  ends := by
    have none := Location.characterIn_after text []
    rw [List.append_nil] at none
    rw [Location.returned, none]
    rfl

/-- A line feed stands where the end of a line does. -/
theorem returned_eq_move (h : tokensAt .start cs = .ok ts) {t : Token} (mem : t ∈ ts) (other : t.kind ≠ .endOfInput) :
    t.returned = (returns cs).move t ∧ (returns cs).Sure t := by
  obtain ⟨before, c, rest, rfl, here, kinds⟩ := tokensAt_starts h t mem other
  have stands : t.location.characterIn (before ++ c :: rest) = some c := by
    rw [here, Location.characterIn_after]
    rfl
  by_cases line : t.kind = .newline
  · have feed : (returns (before ++ c :: rest)).place t.location = ⟨t.location.line, t.location.column + 1⟩ :=
      if_pos (by rw [stands, kinds.1 line])
    refine ⟨?_, absurd line⟩
    rw [Token.returned, if_pos line, Parallel.move, feed]
  · have same : (returns (before ++ c :: rest)).place t.location = t.location := by
      refine if_neg fun feed => line (kinds.2 ?_)
      rw [stands] at feed
      exact Option.some.inj feed
    refine ⟨?_, fun _ => same⟩
    rw [Token.returned, if_neg line, Parallel.move, same]

theorem Program.ofTokens_returned (h : tokensAt .start cs = .ok ts) :
    ofTokens (ts.map Token.returned) =
      (ofTokens ts).mapError fun e => ⟨e.complaint, e.location.returned cs⟩ := by
  obtain ⟨before, rfl, others⟩ := tokensAt_ends h
  have stands (t : Token) (mem : t ∈ before) : t.returned = (returns cs).move t ∧ (returns cs).Sure t :=
    returned_eq_move h (List.mem_append_left _ mem) (others t mem)
  have moved : before.map Token.returned = before.map (returns cs).move :=
    List.map_congr_left fun t mem => (stands t mem).1
  have inputs := Parallel.Tokens.all fun t mem => (stands t mem).2
  have finish : Location.start.after cs = (returns cs).finish := rfl
  have last : Token.returned ⟨.endOfInput, "", (returns cs).finish⟩ =
      ⟨.endOfInput, "", (returns cs).place (returns cs).finish⟩ := by
    rw [(returns cs).ends]
    rfl
  rw [List.map_append, moved, List.map_singleton, finish, last]
  rcases ofTokens_follow others (Parallel.kind_of_mem_map others) "" inputs with
    ⟨p, read, read'⟩ | ⟨e, e', read, read', same⟩
  · rw [read, read']
    exact congrArg Except.ok p.moved_id
  · rw [read, read']
    cases same with
    | same complaint l => rfl
    | skipped skips => exact skips.elim

/-- A source with a carriage return before every line feed is the same program, or has the same error. The error
stands in the same line and column, but one column further if it stands at the end of a line. -/
theorem line_ends_do_not_matter (source : String) :
    Program.ofSource (String.ofList (Text.returned source.toList)) =
      (Program.ofSource source).mapError fun e => ⟨e.complaint, e.location.returned source.toList⟩ := by
  have tokens := tokensAt_returned .start source.toList
  rw [Program.ofSource, Program.ofSource, tokenize_eq_tokensAt, tokenize_eq_tokensAt, String.toList_ofList, tokens]
  cases lexed : tokensAt .start source.toList with
  | error e =>
    obtain ⟨before, c, rest, text, here, other⟩ := tokensAt_refuses lexed
    have same : e.location.returned source.toList = e.location := by
      refine if_neg fun feed => other ?_
      rw [text, here, Location.characterIn_after] at feed
      exact Option.some.inj feed
    show Except.error e = Except.error ⟨e.complaint, e.location.returned source.toList⟩
    rw [same]
  | ok found => exact Program.ofTokens_returned lexed

end Pseudocode
