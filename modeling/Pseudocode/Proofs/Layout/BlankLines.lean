import Mathlib.Control.Monad.Basic
import Pseudocode.Proofs.Layout.Readers
import Pseudocode.Proofs.Lexing.Lines

/-!
A line more. Behind the end of a line, a line without tokens moves all that follows down by one line and changes
nothing else, but for one error: blocks that are nested too deeply are refused behind the end of the line that
opens the last of them, before empty lines are skipped (`empty_line_moves_the_rest`).
-/

namespace Pseudocode

open Lexeme

/-- A line of blanks, with a comment behind them or none. -/
def EmptyLine (line : List Char) : Prop :=
  ∃ gap rest, line = gap ++ rest ∧ (∀ c ∈ gap, isGap c = true) ∧
    (rest = [] ∨ ∃ body, rest = '/' :: '/' :: body ∧ '\n' ∉ body)

namespace Location

/-- The place that stands for this one when a line has been put behind line `k`. -/
def lowered (k : Nat) (l : Location) : Location := if k < l.line then ⟨l.line + 1, l.column⟩ else l

theorem lowered_of_le {k : Nat} {l : Location} (above : l.line ≤ k) : l.lowered k = l := if_neg (Nat.not_lt.2 above)

theorem after_line_le (p : Location) (cs : List Char) : p.line ≤ (p.after cs).line := by
  induction cs generalizing p with
  | nil => exact Nat.le_refl _
  | cons c cs ih =>
    refine Nat.le_trans ?_ (ih (p.past c))
    rw [past]
    split
    · exact Nat.le_add_right _ _
    · exact Nat.le_refl _

theorem lowered_after {k : Nat} {p : Location} (below : k < p.line) (cs : List Char) :
    (p.after cs).lowered k = (p.lowered k).after cs := by
  induction cs generalizing p with
  | nil => rfl
  | cons c cs ih =>
    have next : k < (p.past c).line := Nat.lt_of_lt_of_le below (p.after_line_le [c])
    have step : (p.past c).lowered k = (p.lowered k).past c := by
      rw [lowered, if_pos next, lowered, if_pos below, past, past]
      split <;> rfl
    show ((p.past c).after cs).lowered k = ((p.lowered k).past c).after cs
    rw [ih next, step]

/-- On the same line. -/
theorem after_of_not_mem (p : Location) {cs : List Char} (one : '\n' ∉ cs) :
    p.after cs = ⟨p.line, p.column + cs.length⟩ := by
  induction cs generalizing p with
  | nil => rfl
  | cons c cs ih =>
    obtain ⟨other, others⟩ := not_or.1 (mt List.mem_cons.2 one)
    show (p.past c).after cs = _
    rw [ih _ others, past, if_neg (Ne.symm other), List.length_cons, Nat.add_assoc, Nat.add_comm 1]

end Location

variable {p : Location} {a b line gap : List Char} {ts : List Token} {e : SyntaxError} {k : Nat}

theorem not_mem_gap (blank : ∀ c ∈ gap, isGap c = true) : '\n' ∉ gap := by
  intro mem
  cases blank _ mem

theorem EmptyLine.not_mem (empty : EmptyLine line) : '\n' ∉ line := by
  obtain ⟨gap, rest, rfl, blank, none | ⟨body, rfl, inside⟩⟩ := empty
  · simp [none, not_mem_gap blank]
  · simp [not_mem_gap blank, inside]

/-- An empty line has no tokens but comments. -/
theorem EmptyLine.tokensAt (empty : EmptyLine line) (p : Location) :
    ∃ comments, tokensAt p line = .ok (comments ++ [⟨.endOfInput, "", p.after line⟩]) ∧
      ∀ t ∈ comments, t.kind = .comment := by
  obtain ⟨gap, rest, rfl, blank, rfl | ⟨body, rfl, inside⟩⟩ := empty
  · rw [List.append_nil]
    exact ⟨[], tokensAt_gap blank, List.forall_mem_nil _⟩
  · have found := read_last_comment inside
    refine ⟨[⟨.comment, String.ofList (Text.trimChars body), p.after gap⟩], ?_, List.forall_mem_singleton.2 rfl⟩
    rw [tokensAt_lexeme blank rfl found, tokensAt_nil, Location.after_append]
    rfl

theorem EmptyLine.after_start (empty : EmptyLine line) (start : p = ⟨k + 1, 1⟩) :
    p.after line = ⟨k + 1, line.length + 1⟩ := by
  rw [p.after_of_not_mem empty.not_mem, start, Nat.add_comm 1]

/-- Behind an empty line, the line that stood there before is one further down. -/
theorem EmptyLine.past_end (empty : EmptyLine line) (start : p = ⟨k + 1, 1⟩) :
    (p.after line).past '\n' = p.lowered k := by
  rw [empty.after_start start, start, Location.lowered, if_pos (Nat.lt_succ_self k)]
  rfl

/-- What stands above the new line stays where it is. -/
theorem tokensAt_above (above : (p.after a).line ≤ k) :
    tokensAt p a = movedTokens (Location.lowered k) (tokensAt p a) := by
  have stays (before : List Char) (inside : before <+: a) : (p.after before).lowered k = p.after before := by
    obtain ⟨more, rfl⟩ := inside
    rw [← Location.after_append] at above
    exact Location.lowered_of_le (Nat.le_trans (Location.after_line_le _ more) above)
  have here : p.lowered k = p := stays [] List.nil_prefix
  have moves (before : List Char) (inside : before <+: a) :
      (p.after before).lowered k = (p.lowered k).after before := by rw [stays before inside, here]
  have moved := tokensAt_moved moves
  rwa [here] at moved

/-- What stands below it is one line further down. -/
theorem tokensAt_below (below : k < p.line) (b : List Char) :
    tokensAt (p.lowered k) b = movedTokens (Location.lowered k) (tokensAt p b) :=
  tokensAt_moved fun before _ => Location.lowered_after below before

/-- The first token that is no comment stands on the first line. -/
theorem tokensAt_first (h : tokensAt p b = .ok ts) :
    ∃ t rest, ts.filter (·.kind != .comment) = t :: rest ∧ t.location.line = p.line := by
  have onLine (p : Location) {cs : List Char} (one : '\n' ∉ cs) : (p.after cs).line = p.line := by
    rw [p.after_of_not_mem one]
  induction h using tokens_induction with
  | blank p gap blank => exact ⟨_, [], rfl, onLine p (not_mem_gap blank)⟩
  | lexeme p gap c rest x tail us blank dark found later ih =>
    have here := onLine p (not_mem_gap blank)
    by_cases comment : x.kind = .comment
    · have form := (read_eq_ok_iff.1 found).form
      have one : '\n' ∉ x.raw := by
        intro line
        have alone := form.eq_line line
        rw [alone, comment] at form
        have feed : Form ['\n'] (some (.newline, String.ofList ['\n'])) := .symbol (by decide)
        cases congrArg Prod.fst (form.unique feed)
      obtain ⟨t, rest, same, first⟩ := ih
      refine ⟨t, rest, ?_, ?_⟩
      · rw [List.filter_cons_of_neg (by simp [comment]), same]
      · rw [first, onLine _ one, here]
    · exact ⟨_, _, List.filter_cons_of_pos (by simpa using comment), here⟩

theorem Parallel.next_on_line (C : Parallel) (h : tokensAt p b = .ok (ts ++ [⟨.endOfInput, "", C.finish⟩])) :
    (C.next (ts.filter (·.kind != .comment))).line = p.line := by
  obtain ⟨t, rest, firsts, same⟩ := tokensAt_first h
  rw [List.filter_append] at firsts
  cases kept : ts.filter (·.kind != .comment) with
  | nil =>
    rw [kept] at firsts
    cases firsts
    exact same
  | cons u us =>
    rw [kept] at firsts
    cases firsts
    exact same

/-- The places of a source that ends at `finish` and of the source with a line of the given length behind
line `k`. -/
def lowers (k length : Nat) (finish : Location) : Parallel where
  place := Location.lowered k
  node := Location.lowered k
  finish := finish
  Skips l l' := l.line = k + 1 ∧ l' = ⟨k + 1, length + 1⟩
  ends := rfl

/-- The empty line puts an end of a line behind the end of a line. -/
theorem Parallel.Tokens.inserted {C : Parallel} {early comments late : List Token} {t n : Token}
    (sure : ∀ u, C.Sure u) (stays : early.map C.move = early) (same : C.move t = t) (line : t.kind = .newline)
    (line' : n.kind = .newline) (dropped : ∀ u ∈ comments, u.kind = .comment)
    (skips : C.Skips (C.next (late.filter (·.kind != .comment))) n.location) :
    C.Tokens ((early ++ t :: late).filter (·.kind != .comment))
      ((early ++ t :: (comments ++ n :: late.map C.move)).filter (·.kind != .comment)) := by
  have none : comments.filter (·.kind != .comment) = [] := by
    simpa [List.filter_eq_nil_iff] using dropped
  have behind := Parallel.Tokens.blank line line' skips (.all fun u _ => sure u)
  have tokens := Parallel.Tokens.append (fun u (_ : u ∈ early) => sure u) behind
  rw [stays, same] at tokens
  rw [List.filter_append, List.filter_append, List.filter_cons_of_pos (by simp [line]),
    List.filter_cons_of_pos (by simp [line]), List.filter_append, none, List.filter_cons_of_pos (by simp [line'])]
  exact tokens

/-- The tokens of both sources, side by side. -/
theorem tokensAt_inserted (empty : EmptyLine line) (height : (Location.start.after a).line = k) (b : List Char) :
    (∃ e, tokensAt .start (a ++ '\n' :: b) = .error e ∧
      tokensAt .start (a ++ '\n' :: (line ++ '\n' :: b)) = .error (e.moved (Location.lowered k))) ∨
    ∃ before before' finish,
      tokensAt .start (a ++ '\n' :: b) = .ok (before ++ [⟨.endOfInput, "", finish⟩]) ∧
      tokensAt .start (a ++ '\n' :: (line ++ '\n' :: b)) = .ok (before' ++ [⟨.endOfInput, "", finish.lowered k⟩]) ∧
      (lowers k line.length finish).Tokens (before.filter (·.kind != .comment))
        (before'.filter (·.kind != .comment)) := by
  have above := tokensAt_above (Nat.le_of_eq height)
  cases first : tokensAt .start a with
  | error e =>
    rw [first] at above
    have stays : e = e.moved (Location.lowered k) := Except.error.inj above
    exact .inl ⟨e, tokensAt_line_error first _, by rw [tokensAt_line_error first, ← stays]⟩
  | ok found =>
    obtain ⟨early, rfl, -⟩ := tokensAt_ends first
    rw [first] at above
    have stays : early = early.map (Token.moved (Location.lowered k)) := by
      have all := Except.ok.inj above
      rw [List.map_append] at all
      exact List.append_inj_left all (List.length_map _).symm
    obtain ⟨q, start⟩ : ∃ q : Location, q = ⟨k + 1, 1⟩ := ⟨_, rfl⟩
    have next : (Location.start.after a).past '\n' = q := by rw [start, ← height]; rfl
    obtain ⟨comments, inserted, dropped⟩ := empty.tokensAt q
    have below := tokensAt_below (show k < q.line by rw [start]; exact Nat.lt_succ_self k) b
    rw [tokensAt_line first, tokensAt_line first, next, tokensAt_line inserted, empty.past_end start, below]
    cases second : tokensAt q b with
    | error e => exact .inl ⟨e, rfl, rfl⟩
    | ok found =>
      obtain ⟨late, rfl, -⟩ := tokensAt_ends second
      have skips : (lowers k line.length (q.after b)).Skips
          ((lowers k line.length (q.after b)).next (late.filter (·.kind != .comment))) (q.after line) :=
        ⟨(Parallel.next_on_line _ second).trans (by rw [start]), empty.after_start start⟩
      have feed : (lowers k line.length (q.after b)).move ⟨.newline, "\n", Location.start.after a⟩ =
          ⟨.newline, "\n", Location.start.after a⟩ :=
        congrArg (Token.mk .newline "\n") (Location.lowered_of_le (Nat.le_of_eq height))
      have inputs := Parallel.Tokens.inserted (C := lowers k line.length (q.after b))
        (n := ⟨.newline, "\n", q.after line⟩) (fun _ _ => rfl) stays.symm feed rfl rfl dropped skips
      refine .inr ⟨_, _, q.after b, ?_, ?_, inputs⟩
      · rw [List.append_assoc]
        rfl
      · have tail : movedTokens (Location.lowered k) (.ok (late ++ [⟨.endOfInput, "", q.after b⟩])) =
            .ok (late.map (Token.moved (Location.lowered k)) ++ [⟨.endOfInput, "", (q.after b).lowered k⟩]) :=
          congrArg Except.ok List.map_append
        rw [tail, List.append_assoc, List.cons_append, List.append_assoc]
        rfl

/-- The number of lines of a text. -/
def Text.lineCount (cs : List Char) : Nat := 1 + cs.count '\n'

/-- A line of blanks or with a comment, put behind a line of a source, leaves the program as it is but for the
places below, which are one line further down; so it does with an error. Only blocks that are nested too deeply
can be found at the end of the new line, instead of the line behind it. -/
theorem empty_line_moves_the_rest (a line b : String) (empty : EmptyLine line.toList) :
    (∀ p, Program.ofSource (a ++ "\n" ++ b) = .ok p →
      Program.ofSource (a ++ "\n" ++ line ++ "\n" ++ b) = .ok (p.moved (Location.lowered (Text.lineCount a.toList)))) ∧
    ∀ e, Program.ofSource (a ++ "\n" ++ b) = .error e →
      ∃ l, Program.ofSource (a ++ "\n" ++ line ++ "\n" ++ b) = .error ⟨e.complaint, l⟩ ∧
        (l = e.location.lowered (Text.lineCount a.toList) ∨
          e.complaint = .tooDeep .block ∧ e.location.line = Text.lineCount a.toList + 1 ∧
            l = ⟨Text.lineCount a.toList + 1, line.length + 1⟩) := by
  have height : (Location.start.after a.toList).line = Text.lineCount a.toList := by
    rw [Location.start_after]
    rfl
  have text : (a ++ "\n" ++ b).toList = a.toList ++ '\n' :: b.toList := by
    rw [String.toList_append, String.toList_append, List.append_assoc]
    rfl
  have text' : (a ++ "\n" ++ line ++ "\n" ++ b).toList = a.toList ++ '\n' :: (line.toList ++ '\n' :: b.toList) := by
    simp only [String.toList_append, List.append_assoc]
    rfl
  rw [Program.ofSource, Program.ofSource, tokenize_eq_tokensAt, tokenize_eq_tokensAt, text, text']
  rcases tokensAt_inserted empty height b.toList with
    ⟨e, lexed, lexed'⟩ | ⟨before, before', finish, lexed, lexed', inputs⟩
  · rw [lexed, lexed']
    refine ⟨fun _ failed => (by cases failed), fun e' failed => ?_⟩
    cases failed
    exact ⟨_, rfl, .inl rfl⟩
  · rw [lexed, lexed']
    rcases Program.ofTokens_follow (tokensAt_others lexed) (tokensAt_others lexed') "" inputs with
      ⟨p, read, read'⟩ | ⟨e, e', read, read', same⟩
    · refine ⟨fun p' ok => ?_, fun e failed => ?_⟩
      · cases read.symm.trans ok
        exact read'
      · cases read.symm.trans failed
    · refine ⟨fun p ok => ?_, fun e'' failed => ?_⟩
      · cases read.symm.trans ok
      · cases read.symm.trans failed
        cases same with
        | same complaint l => exact ⟨_, read', .inl rfl⟩
        | skipped skips => exact ⟨_, read', .inr ⟨rfl, skips⟩⟩

/-- A line with a comment moves the error on the line behind it. -/
theorem comment_line_moves_error :
    EmptyLine " // note".toList ∧
      Program.ofSource ("x ← 1" ++ "\n" ++ " // note" ++ "\n" ++ " ENDIF") =
        .error ⟨.keywordAtStart "ENDIF", ⟨3, 2⟩⟩ := by
  have empty : EmptyLine " // note".toList :=
    ⟨[' '], "// note".toList, rfl, List.forall_mem_singleton.2 rfl, .inr ⟨" note".toList, rfl, by decide⟩⟩
  have tokens : tokenize ("x ← 1" ++ "\n" ++ " ENDIF") =
      .ok [⟨.identifier, "x", ⟨1, 1⟩⟩, ⟨.assign, "←", ⟨1, 3⟩⟩, ⟨.number 1, "1", ⟨1, 5⟩⟩, ⟨.newline, "\n", ⟨1, 6⟩⟩,
        ⟨.keyword, "ENDIF", ⟨2, 2⟩⟩, ⟨.endOfInput, "", ⟨2, 7⟩⟩] := by decide +kernel
  have before : Program.ofSource ("x ← 1" ++ "\n" ++ " ENDIF") = .error ⟨.keywordAtStart "ENDIF", ⟨2, 2⟩⟩ := by
    rw [Program.ofSource, tokens]
    rfl
  obtain ⟨l, failed, same | ⟨deep, -⟩⟩ := (empty_line_moves_the_rest _ _ _ empty).2 _ before
  · refine ⟨empty, ?_⟩
    rw [failed, same]
    rfl
  · cases deep

section Loops

/-- The first lines of `n` loops, each inside the one before it, and a text behind them. -/
def opened : Nat → List Char → List Char
  | 0, b => b
  | n + 1, b => ['R', 'E', 'P', 'E', 'A', 'T'] ++ '\n' :: opened n b

/-- The tokens of such lines from line `k` on, and those behind them. -/
def openings : Nat → Nat → List Token → List Token
  | 0, _, ts => ts
  | n + 1, k, ts => ⟨.keyword, "REPEAT", ⟨k, 1⟩⟩ :: ⟨.newline, "\n", ⟨k, 7⟩⟩ :: openings n (k + 1) ts

theorem tokensAt_opened (n k : Nat) (b : List Char) :
    tokensAt ⟨k, 1⟩ (opened n b) = openings n k <$> tokensAt ⟨k + n, 1⟩ b := by
  induction n generalizing k with
  | zero =>
    show tokensAt ⟨k, 1⟩ b = openings 0 k <$> tokensAt ⟨k, 1⟩ b
    cases tokensAt ⟨k, 1⟩ b <;> rfl
  | succ n ih =>
    have line : tokensAt ⟨k, 1⟩ ['R', 'E', 'P', 'E', 'A', 'T'] =
        .ok ([⟨.keyword, "REPEAT", ⟨k, 1⟩⟩] ++ [⟨.endOfInput, "", ⟨k, 7⟩⟩]) := rfl
    have first : tokensAt ⟨k, 1⟩ (opened (n + 1) b) =
        (fun ts => ⟨.keyword, "REPEAT", ⟨k, 1⟩⟩ :: ⟨.newline, "\n", ⟨k, 7⟩⟩ :: ts) <$>
          tokensAt ⟨k + 1, 1⟩ (opened n b) := tokensAt_line line (opened n b)
    have down : k + 1 + n = k + (n + 1) := by omega
    rw [first, ih (k + 1), down]
    cases tokensAt ⟨k + (n + 1), 1⟩ b <;> rfl

/-- Whether the loops are refused is decided on their tokens. -/
theorem ofSource_opened {n : Nat} {l : Location} (lexed : tokensAt ⟨1 + n, 1⟩ b = .ok ts)
    (refused : (fun _ => ()) <$> Program.ofTokens (openings n 1 ts) = .error ⟨.tooDeep .block, l⟩) :
    Program.ofSource (String.ofList (opened n b)) = .error ⟨.tooDeep .block, l⟩ := by
  have tokens : tokenize (String.ofList (opened n b)) = .ok (openings n 1 ts) := by
    rw [tokenize_eq_tokensAt, String.toList_ofList]
    exact (tokensAt_opened n 1 b).trans (by rw [lexed]; rfl)
  rw [Program.ofSource, tokens]
  show Program.ofTokens (openings n 1 ts) = _
  cases read : Program.ofTokens (openings n 1 ts) with
  | ok p =>
    rw [read] at refused
    cases refused
  | error e =>
    rw [read] at refused
    exact congrArg Except.error (Except.error.inj refused)

/-- One loop too many: behind its first line, an empty line takes the error from the line below, which then
stands one line too high and in another column. -/
theorem empty_line_takes_error :
    Program.ofSource (String.ofList (opened 101 [' ', 'x'])) = .error ⟨.tooDeep .block, ⟨102, 2⟩⟩ ∧
      Program.ofSource (String.ofList (opened 101 ['\n', ' ', 'x'])) = .error ⟨.tooDeep .block, ⟨102, 1⟩⟩ ∧
      Location.lowered 101 ⟨102, 2⟩ = ⟨103, 2⟩ := by
  have tokens : tokensAt ⟨1 + 101, 1⟩ [' ', 'x'] =
      .ok [⟨.identifier, "x", ⟨102, 2⟩⟩, ⟨.endOfInput, "", ⟨102, 3⟩⟩] := rfl
  have tokens' : tokensAt ⟨1 + 101, 1⟩ ['\n', ' ', 'x'] =
      .ok [⟨.newline, "\n", ⟨102, 1⟩⟩, ⟨.identifier, "x", ⟨103, 2⟩⟩, ⟨.endOfInput, "", ⟨103, 3⟩⟩] := rfl
  exact ⟨ofSource_opened tokens (by decide +kernel), ofSource_opened tokens' (by decide +kernel), rfl⟩

end Loops

end Pseudocode
