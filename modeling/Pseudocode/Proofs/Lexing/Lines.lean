import Pseudocode.Proofs.Lexing.Source

/-!
Lexing line by line. No lexeme but the line feed itself crosses the end of a line, so the tokens of a text are
those of its lines, one line behind the other (`tokensAt_line`). A carriage return at the end of a text changes
no token but the end of input (`tokensAt_return`), and a text further down has its tokens further down
(`tokensAt_moved`).
-/

namespace Pseudocode

theorem Text.trimChars_return (body : List Char) : trimChars (body ++ ['\r']) = trimChars body := by
  have blank : isBlank '\r' = true := rfl
  have last (cs : List Char) : dropEndWhile isBlank (cs ++ ['\r']) = dropEndWhile isBlank cs := by
    rw [dropEndWhile, dropEndWhile, List.reverse_append, List.reverse_singleton, List.singleton_append,
      List.dropWhile_cons_of_pos blank]
  rw [trimChars, trimChars, List.dropWhile_append]
  split
  · next none => rw [List.isEmpty_iff.1 none, List.dropWhile_cons_of_pos blank, List.dropWhile_nil]
  · exact last _

namespace Lexeme

variable {c t : Char} {cs raw rest u v : List Char} {m : Option (TokenKind × String)} {complaint : Complaint}

section Ends

theorem continuesWord_of_startsWord (letter : startsWord c = true) : continuesWord c = true := by
  simp only [startsWord, continuesWord, Char.isAlphanum, Bool.or_eq_true] at letter ⊢
  exact letter.imp_left .inl

/-- Where a line feed or a carriage return can stand in a spelling. -/
theorem Form.cases_of_mem (h : Form raw m) (mem : t ∈ raw) (ends : t = '\n' ∨ t = '\r') :
    raw = ['\n'] ∨ (∃ body, raw = '/' :: '/' :: body ∧ '\n' ∉ body) ∨
      ∃ quote body, (quote = '"' ∨ quote = '\'') ∧ raw = quote :: (body ++ [quote]) ∧ '\n' ∉ body := by
  have notInWord : continuesWord t ≠ true := by rcases ends with rfl | rfl <;> decide
  have notDigit : t.isDigit ≠ true := by rcases ends with rfl | rfl <;> decide
  have notHex : t.isAlphanum ≠ true := by rcases ends with rfl | rfl <;> decide
  cases h with
  | @keyword c cs letter inside | @identifier c cs letter inside =>
    have all : ∀ d ∈ c :: cs, continuesWord d = true :=
      List.forall_mem_cons.2 ⟨continuesWord_of_startsWord letter, inside⟩
    exact absurd (all t mem) notInWord
  | @character d _ line => exact .inr (.inr ⟨'\'', [d], .inr rfl, rfl, by simpa using Ne.symm line⟩)
  | @string quote body delimiter inside =>
    exact .inr (.inr ⟨quote, body, delimiter.imp_right And.left, rfl, fun line => (inside _ line).2 rfl⟩)
  | @whole c cs digit inside =>
    have all : ∀ d ∈ c :: cs, d.isDigit = true := List.forall_mem_cons.2 ⟨digit, inside⟩
    exact absurd (all t mem) notDigit
  | @fraction c cs digits digit inside _ behind =>
    have all : ∀ d ∈ c :: (cs ++ '.' :: digits), d.isDigit = true ∨ d = '.' := by
      simp only [List.mem_cons, List.mem_append]
      grind
    rcases all t mem with same | rfl
    · exact absurd same notDigit
    · rcases ends with same | same <;> cases same
  | @hexadecimal mark digits hex inside =>
    have all : ∀ d ∈ '0' :: mark :: digits, d.isAlphanum = true := by
      have marked : mark.isAlphanum = true := by rcases hex with rfl | rfl <;> rfl
      exact List.forall_mem_cons.2 ⟨rfl, List.forall_mem_cons.2 ⟨marked, inside⟩⟩
    exact absurd (all t mem) notHex
  | @comment body inside => exact .inr (.inl ⟨body, rfl, inside⟩)
  | symbol listed =>
    have all : ∀ s ∈ symbols, ('\n' ∈ s.1 ∨ '\r' ∈ s.1) → s.1 = ['\n'] := by decide
    refine .inl (all _ listed ?_)
    rcases ends with rfl | rfl
    · exact .inl mem
    · exact .inr mem

/-- A line feed is spelled only by itself. -/
theorem Form.eq_line (h : Form raw m) (line : '\n' ∈ raw) : raw = ['\n'] := by
  rcases h.cases_of_mem line (.inl rfl) with same | ⟨body, rfl, inside⟩ | ⟨quote, body, delimiter, rfl, inside⟩
  · exact same
  · simp [inside] at line
  · rcases delimiter with rfl | rfl <;> simp [inside] at line

/-- Only a comment ends with a carriage return. -/
theorem Form.comment_of_return (h : Form (u ++ ['\r']) m) : ∃ body, u = '/' :: '/' :: body ∧ '\n' ∉ body := by
  rcases h.cases_of_mem (List.mem_append_right _ List.mem_cons_self) (.inr rfl) with
    same | ⟨body, same, inside⟩ | ⟨quote, body, delimiter, same, -⟩
  · have last := (List.append_eq_singleton_iff.1 same)
    simp at last
  · rcases List.eq_nil_or_concat body with rfl | ⟨body, d, rfl⟩
    · have parts : u ++ ['\r'] = ['/'] ++ ['/'] := same
      obtain ⟨-, last⟩ := List.append_inj' parts rfl
      cases last
    · rw [List.concat_eq_append] at same inside
      have parts : u ++ ['\r'] = ('/' :: '/' :: body) ++ [d] := same
      obtain ⟨rfl, -⟩ := List.append_inj' parts rfl
      exact ⟨body, rfl, fun line => inside (List.mem_append_left _ line)⟩
  · have parts : u ++ ['\r'] = (quote :: body) ++ [quote] := same
    obtain ⟨-, last⟩ := List.append_inj' parts rfl
    rcases delimiter with rfl | rfl <;> cases last

end Ends

section Reading

variable {x : Lexeme}

theorem Longest.of_append {more : List Char} (h : Longest raw (rest ++ more)) : Longest raw rest := by
  intro c next behind meaning text
  exact h c next (behind ++ more) meaning (by rw [text, List.append_assoc])

/-- A comment that ends with the text. -/
theorem read_last_comment {body : List Char} (inside : '\n' ∉ body) :
    read '/' ('/' :: body) = .ok (⟨'/' :: '/' :: body, .comment, String.ofList (Text.trimChars body)⟩, []) := by
  have found : read '/' ('/' :: body ++ []) = _ := read_longest_comment inside nofun
  rwa [List.append_nil] at found

/-- What is complained about depends on the first characters only. -/
theorem read_error_cases (h : read c cs = .error complaint) :
    (c = '"' ∨ c = '\'') ∧ complaint = .unterminatedString ∨
      c.isDigit = true ∧ (∃ mark behind, cs = mark :: behind ∧
        complaint = .malformedHex (String.ofList (behind.takeWhile Char.isAlphanum))) ∨
      IsMark c ∧ complaint = .unexpectedCharacter c := by
  have hexadecimal_error (mark : List Char) {digits : List Char} (h : hexadecimal mark digits = .error complaint) :
      complaint = .malformedHex (String.ofList (digits.takeWhile Char.isAlphanum)) := by
    simp only [hexadecimal] at h
    split at h
    · cases h
      rfl
    · split at h
      · cases h
      · cases h
        rfl
  by_cases quote : c = '"' ∨ c = '\''
  · rw [read_quoted quote] at h
    simp only [quoted] at h
    refine .inl ⟨quote, ?_⟩
    split at h
    · cases h
      rfl
    · split at h
      · cases h
      · cases h
        rfl
  by_cases digit : c.isDigit = true
  · rw [read_number digit] at h
    refine .inr (.inl ⟨digit, ?_⟩)
    unfold number at h
    split at h
    · next same =>
      cases same
      exact ⟨_, _, rfl, hexadecimal_error _ h⟩
    · next same =>
      cases same
      exact ⟨_, _, rfl, hexadecimal_error _ h⟩
    · cases h
  by_cases letter : startsWord c = true
  · rw [read_word letter] at h
    cases h
  have mark : IsMark c := ⟨quote, digit, letter⟩
  rw [read_mark mark] at h
  refine .inr (.inr ⟨mark, ?_⟩)
  split at h
  · cases h
  · cases h
    rfl

theorem takeWhile_stop {p : Char → Bool} (stops : p t = false) (u v : List Char) :
    (u ++ t :: v).takeWhile p = u.takeWhile p := by
  induction u with
  | nil => rw [List.nil_append, List.takeWhile_cons_of_neg (by simp [stops]), List.takeWhile_nil]
  | cons d u ih => rw [List.cons_append, List.takeWhile_cons, List.takeWhile_cons, ih]

/-- A refused text is refused for the same reason with more behind it, if it is refused. -/
theorem complaint_unique {other : Complaint} (stops : t.isAlphanum = false) (h : read c u = .error complaint)
    (h' : read c (u ++ t :: v) = .error other) : other = complaint := by
  rcases read_error_cases h with ⟨quote, rfl⟩ | ⟨digit, mark, behind, rfl, rfl⟩ | ⟨isMark, rfl⟩ <;>
    rcases read_error_cases h' with ⟨quote', rfl⟩ | ⟨digit', mark', behind', same, rfl⟩ | ⟨isMark', rfl⟩
  · rfl
  · rcases quote with rfl | rfl <;> cases digit'
  · exact absurd quote isMark'.quote
  · rcases quote' with rfl | rfl <;> cases digit
  · rw [List.cons_append] at same
    obtain ⟨-, rfl⟩ := List.cons.inj same
    rw [takeWhile_stop stops]
  · exact absurd digit isMark'.digit
  · exact absurd quote' isMark.quote
  · exact absurd digit' isMark.digit
  · rfl

theorem read_line_ok (h : read c u = .ok (x, rest)) (v : List Char) :
    read c (u ++ '\n' :: v) = .ok (x, rest ++ '\n' :: v) := by
  obtain ⟨text, form, longest⟩ := read_eq_ok_iff.1 h
  refine read_eq_ok_iff.2 ⟨by rw [← List.cons_append, text, List.append_assoc], form, ?_⟩
  intro d more behind meaning parts longer
  rcases List.append_eq_append_iff.1 parts with ⟨inside, same, line⟩ | ⟨inside, same, -⟩
  · cases inside with
    | nil => exact longest d more [] meaning (by rw [same]; simp) longer
    | cons e es =>
      obtain ⟨rfl, -⟩ := List.cons.inj line
      have alone := longer.eq_line (by rw [same]; simp)
      have one := congrArg List.length alone
      have some := List.length_pos_iff.2 form.ne_nil
      simp only [List.length_append, List.length_cons, List.length_nil] at one
      omega
  · exact longest d more inside meaning same longer

theorem read_line_error (h : read c u = .error complaint) (v : List Char) :
    read c (u ++ '\n' :: v) = .error complaint := by
  cases h' : read c (u ++ '\n' :: v) with
  | error other => rw [complaint_unique rfl h h']
  | ok answer =>
    -- What is read here could be read without the line feed.
    obtain ⟨x, tail⟩ := answer
    obtain ⟨text, form, longest⟩ := read_eq_ok_iff.1 h'
    have unread (more : List Char) (same : c :: u = x.raw ++ more) (behind : tail = more ++ '\n' :: v) : False := by
      have shorter := read_eq_ok_iff.2 ⟨same, form, (behind ▸ longest).of_append⟩
      rw [h] at shorter
      cases shorter
    rw [← List.cons_append] at text
    rcases List.append_eq_append_iff.1 text with ⟨more, same, line⟩ | ⟨more, same, behind⟩
    · cases more with
      | nil => exact (unread [] (by rw [same]; simp) (by simpa using line.symm)).elim
      | cons d more =>
        obtain ⟨rfl, -⟩ := List.cons.inj line
        have alone := form.eq_line (by rw [same]; simp)
        rw [alone] at same
        simp at same
    · exact (unread more same behind).elim

/-- Behind a text, a carriage return is left over or is the end of a comment. -/
theorem read_return_ok (h : read c u = .ok (x, rest)) :
    read c (u ++ ['\r']) = .ok (x, rest ++ ['\r']) ∨
      rest = [] ∧ read c (u ++ ['\r']) = .ok (⟨x.raw ++ ['\r'], x.kind, x.text⟩, []) := by
  obtain ⟨text, form, longest⟩ := read_eq_ok_iff.1 h
  by_cases still : Longest x.raw (rest ++ ['\r'])
  · exact .inl (read_eq_ok_iff.2 ⟨by rw [← List.cons_append, text, List.append_assoc], form, still⟩)
  · simp only [Longest, Classical.not_forall, Classical.not_not] at still
    obtain ⟨d, more, behind, meaning, parts, longer⟩ := still
    have whole : d :: more = rest ++ ['\r'] := by
      rcases List.append_eq_append_iff.1 parts with ⟨inside, same, last⟩ | ⟨inside, same, -⟩
      · cases inside with
        | nil => exact absurd longer (longest d more [] meaning (by rw [same]; simp))
        | cons e es =>
          obtain ⟨rfl, none⟩ := List.cons.inj last
          rw [same, (List.append_eq_nil_iff.1 none.symm).1]
      · exact absurd longer (longest d more inside meaning same)
    rw [whole, ← List.append_assoc, ← text] at longer
    obtain ⟨body, comment, inside⟩ := longer.comment_of_return
    obtain ⟨rfl, rfl⟩ := List.cons.inj comment
    rw [read_last_comment inside] at h
    cases h
    refine .inr ⟨rfl, ?_⟩
    have longer : '\n' ∉ body ++ ['\r'] := by simpa using inside
    rw [List.cons_append, read_last_comment longer, Text.trimChars_return]
    rfl

theorem read_return_error (h : read c u = .error complaint) : read c (u ++ ['\r']) = .error complaint := by
  cases h' : read c (u ++ ['\r']) with
  | error other => rw [complaint_unique rfl h h']
  | ok answer =>
    obtain ⟨x, tail⟩ := answer
    obtain ⟨text, form, longest⟩ := read_eq_ok_iff.1 h'
    rcases List.eq_nil_or_concat tail with rfl | ⟨tail, last, rfl⟩
    · rw [List.append_nil] at text
      rw [← text, ← List.cons_append] at form
      obtain ⟨body, comment, -⟩ := form.comment_of_return
      obtain ⟨rfl, rfl⟩ := List.cons.inj comment
      cases h
    · rw [List.concat_eq_append] at text longest
      rw [← List.append_assoc, ← List.cons_append] at text
      obtain ⟨same, -⟩ := List.append_inj' text rfl
      have shorter := read_eq_ok_iff.2 ⟨same, form, longest.of_append⟩
      rw [h] at shorter
      cases shorter

end Reading

section Kinds

variable {kind : TokenKind} {text : String}

/-- The ends of lines and of the input are no words, literals or comments. -/
theorem Form.mem_symbols (h : Form raw (some (kind, text))) (ends : kind = .newline ∨ kind = .endOfInput) :
    (raw, kind) ∈ symbols := by
  generalize meaning : some (kind, text) = m at h
  cases h with
  | @hexadecimal _ digits =>
    rw [hexMeaning, eq_comm, Option.bind_eq_some_iff] at meaning
    obtain ⟨n, -, small⟩ := meaning
    split at small
    · cases small
      rcases ends with same | same <;> cases same
    · cases small
  | symbol listed =>
    cases meaning
    exact listed
  | _ =>
    cases meaning
    rcases ends with same | same <;> cases same

theorem Form.kind_ne_end (h : Form raw (some (kind, text))) : kind ≠ .endOfInput := by
  have symbolic : ∀ s ∈ symbols, s.2 ≠ .endOfInput := by decide
  intro ends
  exact symbolic _ (h.mem_symbols (.inr ends)) ends

/-- The end of a line is what starts with a line feed. -/
theorem Form.newline_iff (h : Form raw (some (kind, text))) (front : c :: cs = raw ++ rest) :
    kind = .newline ↔ c = '\n' := by
  obtain ⟨d, ds, rfl⟩ := List.exists_cons_of_ne_nil h.ne_nil
  obtain ⟨rfl, -⟩ := List.cons.inj (front.trans List.cons_append)
  constructor
  · intro line
    have symbolic : ∀ s ∈ symbols, s.2 = .newline → s.1.head? = some '\n' := by decide
    exact Option.some.inj (symbolic _ (h.mem_symbols (.inl line)) line)
  · rintro rfl
    have alone := h.eq_line List.mem_cons_self
    rw [alone] at h
    have feed : Form ['\n'] (some (.newline, String.ofList ['\n'])) := .symbol (by decide)
    exact congrArg Prod.fst (h.unique feed)

end Kinds

end Lexeme

open Lexeme

variable {p : Location} {cs gap rest tail a b u : List Char} {c : Char} {x : Lexeme} {ts : List Token}
  {e : SyntaxError}

/-- Where a text with a lexeme at its front ends. -/
theorem after_lexeme (found : read c rest = .ok (x, tail)) :
    ((p.after gap).after x.raw).after tail = p.after (gap ++ c :: rest) := by
  rw [(read_eq_ok_iff.1 found).lossless, Location.after_append, Location.after_append]

/-- The last token, and no other, is the end of input, behind all of the text. -/
theorem tokensAt_ends (h : tokensAt p cs = .ok ts) :
    ∃ before, ts = before ++ [⟨.endOfInput, "", p.after cs⟩] ∧ ∀ t ∈ before, t.kind ≠ .endOfInput := by
  induction h using tokens_induction with
  | blank => exact ⟨[], rfl, nofun⟩
  | lexeme p gap c rest x tail us blank dark found later ih =>
    obtain ⟨before, rfl, others⟩ := ih
    have other := (read_eq_ok_iff.1 found).form.kind_ne_end
    rw [after_lexeme found]
    exact ⟨_ :: before, rfl, List.forall_mem_cons.2 ⟨other, others⟩⟩

theorem tokensAt_others {text : String} {finish : Location}
    (h : tokensAt p cs = .ok (ts ++ [⟨.endOfInput, text, finish⟩])) :
    ∀ t ∈ ts, t.kind ≠ .endOfInput := by
  obtain ⟨before, same, others⟩ := tokensAt_ends h
  obtain ⟨rfl, -⟩ := List.append_inj' same rfl
  exact others

/-- A line that is refused is refused whatever stands on the lines behind. -/
theorem tokensAt_line_error (h : tokensAt p a = .error e) (b : List Char) :
    tokensAt p (a ++ '\n' :: b) = .error e := by
  induction h using refusal_induction with
  | refused p gap c rest complaint blank dark failed =>
    rw [List.append_assoc, List.cons_append, tokensAt_refused blank dark (read_line_error failed b)]
  | lexeme p gap c rest x tail e blank dark found later ih =>
    rw [List.append_assoc, List.cons_append, tokensAt_lexeme blank dark (read_line_ok found b), ih]
    rfl

/-- The tokens of a text are those of its lines. -/
theorem tokensAt_line (h : tokensAt p a = .ok (ts ++ [⟨.endOfInput, "", p.after a⟩])) (b : List Char) :
    tokensAt p (a ++ '\n' :: b) =
      (ts ++ ⟨.newline, "\n", p.after a⟩ :: ·) <$> tokensAt ((p.after a).past '\n') b := by
  generalize whole : ts ++ [_] = us at h
  induction h using tokens_induction generalizing ts with
  | blank p gap blank =>
    obtain rfl : ts = [] := (List.append_left_inj _).1 whole
    have feed : read '\n' b = .ok (symbol .newline ['\n'], b) := rfl
    rw [tokensAt_lexeme blank rfl feed]
    rfl
  | lexeme p gap c rest x tail us blank dark found later ih =>
    obtain ⟨before, rfl, -⟩ := tokensAt_ends later
    rw [after_lexeme found, ← List.cons_append] at whole
    obtain ⟨rfl, -⟩ := List.append_inj' whole rfl
    have lines := ih rfl
    rw [after_lexeme found] at lines
    rw [List.append_assoc, List.cons_append, tokensAt_lexeme blank dark (read_line_ok found b), lines]
    cases tokensAt ((p.after (gap ++ c :: rest)).past '\n') b <;> rfl

theorem tokensAt_return_error (h : tokensAt p u = .error e) : tokensAt p (u ++ ['\r']) = .error e := by
  induction h using refusal_induction with
  | refused p gap c rest complaint blank dark failed =>
    rw [List.append_assoc, List.cons_append, tokensAt_refused blank dark (read_return_error failed)]
  | lexeme p gap c rest x tail e blank dark found later ih =>
    rcases read_return_ok found with found' | ⟨rfl, -⟩
    · rw [List.append_assoc, List.cons_append, tokensAt_lexeme blank dark found', ih]
      rfl
    · cases later

/-- A carriage return at the end moves the end of input and changes no other token. -/
theorem tokensAt_return (h : tokensAt p u = .ok (ts ++ [⟨.endOfInput, "", p.after u⟩])) :
    tokensAt p (u ++ ['\r']) = .ok (ts ++ [⟨.endOfInput, "", (p.after u).past '\r'⟩]) := by
  generalize whole : ts ++ [_] = us at h
  induction h using tokens_induction generalizing ts with
  | blank p gap blank =>
    obtain rfl : ts = [] := (List.append_left_inj _).1 whole
    have longer : ∀ d ∈ gap ++ ['\r'], isGap d = true :=
      List.forall_mem_append.2 ⟨blank, List.forall_mem_singleton.2 rfl⟩
    rw [tokensAt_gap longer, ← Location.after_append]
    rfl
  | lexeme p gap c rest x tail us blank dark found later ih =>
    obtain ⟨before, rfl, -⟩ := tokensAt_ends later
    rw [after_lexeme found, ← List.cons_append] at whole
    obtain ⟨rfl, -⟩ := List.append_inj' whole rfl
    have behind : ((p.after gap).after x.raw).after tail = p.after (gap ++ c :: rest) := after_lexeme found
    rcases read_return_ok found with found' | ⟨rfl, found'⟩
    · have line := ih rfl
      rw [behind] at line
      rw [List.append_assoc, List.cons_append, tokensAt_lexeme blank dark found', line]
      rfl
    · have line : tokensAt ((p.after gap).after (x.raw ++ ['\r'])) [] =
          .ok [⟨.endOfInput, "", ((p.after gap).after x.raw).past '\r'⟩] := by
        rw [tokensAt_nil, ← Location.after_append]
        rfl
      have none : before = [] := by
        rw [tokensAt_nil] at later
        exact ((List.append_left_inj _).1 (show [] ++ _ = _ from Except.ok.inj later)).symm
      rw [List.append_assoc, List.cons_append, tokensAt_lexeme blank dark found', line, none, ← behind]
      rfl

section Moved

def Token.moved (f : Location → Location) (t : Token) : Token := { t with location := f t.location }

def SyntaxError.moved (f : Location → Location) (e : SyntaxError) : SyntaxError := { e with location := f e.location }

/-- What is found when all places are changed. -/
def movedTokens (f : Location → Location) (found : Except SyntaxError (List Token)) :
    Except SyntaxError (List Token) :=
  (found.map (List.map (Token.moved f))).mapError (SyntaxError.moved f)

/-- Tokens move with the start of the text. -/
theorem tokensAt_moved {f : Location → Location}
    (moves : ∀ before, before <+: cs → f (p.after before) = (f p).after before) :
    tokensAt (f p) cs = movedTokens f (tokensAt p cs) := by
  induction cs using lexing_induction generalizing p with
  | blank gap blank =>
    rw [tokensAt_gap blank, tokensAt_gap blank, ← moves gap (List.prefix_refl _)]
    rfl
  | refused gap c rest complaint blank dark failed =>
    rw [tokensAt_refused blank dark failed, tokensAt_refused blank dark failed,
      ← moves gap (List.prefix_append _ _)]
    rfl
  | lexeme gap c rest x tail blank dark found ih =>
    have text : gap ++ c :: rest = gap ++ (x.raw ++ tail) := by rw [(read_eq_ok_iff.1 found).lossless]
    have front : gap ++ x.raw <+: gap ++ c :: rest := ⟨tail, by rw [text, List.append_assoc]⟩
    have here : f ((p.after gap).after x.raw) = ((f p).after gap).after x.raw := by
      rw [Location.after_append, Location.after_append, moves _ front]
    have later := @ih ((p.after gap).after x.raw) fun before inside => by
      rw [here, Location.after_append, Location.after_append, Location.after_append, Location.after_append]
      refine moves _ ?_
      rw [text, List.prefix_append_right_inj, List.prefix_append_right_inj]
      exact inside
    rw [here] at later
    rw [tokensAt_lexeme blank dark found, tokensAt_lexeme blank dark found, later,
      ← moves gap (List.prefix_append _ _)]
    cases tokensAt ((p.after gap).after x.raw) tail <;> rfl

end Moved

end Pseudocode
