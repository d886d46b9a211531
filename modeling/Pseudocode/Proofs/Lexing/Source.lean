import Pseudocode.Proofs.Lexing.Forms

/-!
A source and its tokens. The source is made up of blanks and lexemes in turn, and the place of a token
counts the lines and the characters before its lexeme (`Lexed`). That holds of the tokens of a source
and of no others (`tokens_spell_source`).
-/

namespace Pseudocode

namespace Location

/-- The place behind the first characters of a source: one more than the line feeds among them, and one
more than the characters since the last of these. -/
def behind (before : List Char) : Location :=
  ⟨1 + before.count '\n', 1 + (before.reverse.takeWhile (· != '\n')).length⟩

theorem start_after_reverse (cs : List Char) :
    start.after cs.reverse = ⟨1 + cs.count '\n', 1 + (cs.takeWhile (· != '\n')).length⟩ := by
  induction cs with
  | nil => rfl
  | cons c cs ih =>
    rw [List.reverse_cons, after, List.foldl_append]
    show past (start.after cs.reverse) c = _
    rw [ih, past]
    split
    · next line => simp [line, Nat.add_assoc]
    · next other => simp [other, Nat.add_assoc, Nat.add_comm 1]

theorem start_after (before : List Char) : start.after before = behind before := by
  have counted := start_after_reverse before.reverse
  rwa [List.reverse_reverse, List.count_reverse] at counted

theorem after_append (l : Location) (before more : List Char) :
    (l.after before).after more = l.after (before ++ more) :=
  List.foldl_append.symm

theorem behind_after (before more : List Char) : (behind before).after more = behind (before ++ more) := by
  rw [← start_after, ← start_after, after_append]

end Location

open Lexeme

/-- The tokens of a text that stands behind `before`. Blanks may stand before every lexeme and before the
end. -/
inductive Lexed : List Char → List Char → List Token → Prop
  | ends {before gap : List Char} :
    (∀ c ∈ gap, isGap c = true) → Lexed before gap [⟨.endOfInput, "", .behind (before ++ gap)⟩]
  | token {before gap raw rest : List Char} {kind : TokenKind} {text : String} {tokens : List Token} :
    (∀ c ∈ gap, isGap c = true) → Form raw (some (kind, text)) → Longest raw rest →
      Lexed (before ++ gap ++ raw) rest tokens →
        Lexed before (gap ++ raw ++ rest) (⟨kind, text, .behind (before ++ gap)⟩ :: tokens)

variable {n : Nat} {before gap cs rest : List Char} {c : Char} {tokens : List Token}

/-- A spelling on its own is read whole. -/
theorem Lexeme.Form.read_alone {meaning : Option (TokenKind × String)} (form : Form (c :: cs) meaning) :
    (read c cs).toOption = meaning.map fun m => (⟨c :: cs, m.1, m.2⟩, []) := by
  have longest : Longest (c :: cs) [] := nofun
  exact read_of_longest form longest (List.append_nil _).symm

theorem Lexeme.Form.unique {raw : List Char} {a b : TokenKind × String} (first : Form raw (some a))
    (second : Form raw (some b)) : a = b := by
  obtain ⟨c, cs, rfl⟩ := List.exists_cons_of_ne_nil first.ne_nil
  have same := first.read_alone.symm.trans second.read_alone
  simp only [Option.map_some, Option.some.injEq, Prod.mk.injEq, Lexeme.mk.injEq, true_and, and_true] at same
  exact Prod.ext same.1 same.2

theorem read_gap (gap : isGap c = true) : read c cs = .error (.unexpectedCharacter c) := by
  simp only [isGap, Bool.or_eq_true, beq_iff_eq] at gap
  rcases gap with ((rfl | rfl) | rfl) | rfl <;> rfl

/-- A spelling starts with no blank. -/
theorem Lexeme.Form.not_gap {m : TokenKind × String} (form : Form (c :: cs) (some m)) : isGap c = false := by
  cases blank : isGap c with
  | false => rfl
  | true =>
    have found := form.read_alone
    rw [read_gap blank] at found
    cases found

section Step

variable (blank : ∀ c ∈ gap, isGap c = true)
include blank

theorem tokensFrom_gap (p : Location) : tokensFrom (n + 1) p gap = .ok [⟨.endOfInput, "", p.after gap⟩] := by
  have ends : ∀ c, ([] : List Char).head? = some c → isGap c = false := nofun
  have all := takeWhile_run blank ends
  have none := dropWhile_run blank ends
  rw [List.append_nil] at all none
  rw [tokensFrom, all, none]
  rfl

variable (dark : isGap c = false)
include dark

theorem tokensFrom_refused_at (p : Location) {complaint : Complaint} (failed : read c rest = .error complaint) :
    tokensFrom (n + 1) p (gap ++ c :: rest) = .error ⟨complaint, p.after gap⟩ := by
  have ends : ∀ d, (c :: rest).head? = some d → isGap d = false := by simpa using dark
  simp only [tokensFrom, takeWhile_run blank ends, dropWhile_run blank ends, failed]
  rfl

theorem tokensFrom_lexeme (p : Location) {x : Lexeme} {tail : List Char} (found : read c rest = .ok (x, tail)) :
    tokensFrom (n + 1) p (gap ++ c :: rest) =
      (⟨x.kind, x.text, p.after gap⟩ :: ·) <$> tokensFrom n ((p.after gap).after x.raw) tail := by
  have ends : ∀ d, (c :: rest).head? = some d → isGap d = false := by simpa using dark
  simp only [tokensFrom, takeWhile_run blank ends, dropWhile_run blank ends, found]
  rfl

end Step

theorem gap_cases (cs : List Char) :
    (∀ c ∈ cs, isGap c = true) ∨
      ∃ gap c rest, cs = gap ++ c :: rest ∧ (∀ d ∈ gap, isGap d = true) ∧ isGap c = false := by
  have parts : cs.takeWhile isGap ++ cs.dropWhile isGap = cs := List.takeWhile_append_dropWhile
  have inside := inside_takeWhile isGap cs
  cases stop : cs.dropWhile isGap with
  | nil =>
    rw [stop, List.append_nil] at parts
    exact .inl (parts ▸ inside)
  | cons c rest =>
    have dark := ends_dropWhile isGap cs c (by rw [stop]; rfl)
    rw [stop] at parts
    exact .inr ⟨_, c, rest, parts.symm, inside, dark⟩

/-- The tokens of a text that starts at a place. -/
def tokensAt (p : Location) (cs : List Char) : Except SyntaxError (List Token) := tokensFrom (cs.length + 1) p cs

variable {p : Location} {tail : List Char} {x : Lexeme} {ts : List Token} {e : SyntaxError} {complaint : Complaint}

theorem tokenize_eq_tokensAt (source : String) : tokenize source = tokensAt .start source.toList := rfl

theorem tail_shorter (found : read c rest = .ok (x, tail)) (gap : List Char) :
    tail.length < (gap ++ c :: rest).length := by
  obtain ⟨text, form, -⟩ := read_eq_ok_iff.1 found
  have some := List.length_pos_iff.2 form.ne_nil
  rw [List.length_append, text, List.length_append]
  omega

/-- More rounds than characters make no difference. -/
theorem tokensFrom_settled {n m : Nat} (enough : cs.length < n) (enough' : cs.length < m) :
    tokensFrom n p cs = tokensFrom m p cs := by
  induction n generalizing m p cs with
  | zero => omega
  | succ n ih =>
    obtain ⟨m, rfl⟩ := Nat.exists_eq_add_one.2 (Nat.zero_lt_of_lt enough')
    rcases gap_cases cs with blank | ⟨gap, c, rest, rfl, blank, dark⟩
    · rw [tokensFrom_gap blank, tokensFrom_gap blank]
    · cases found : read c rest with
      | error complaint =>
        rw [tokensFrom_refused_at blank dark p found, tokensFrom_refused_at blank dark p found]
      | ok answer =>
        obtain ⟨x, tail⟩ := answer
        have fewer := tail_shorter found gap
        rw [tokensFrom_lexeme blank dark p found, tokensFrom_lexeme blank dark p found,
          ih (by omega : tail.length < n) (by omega : tail.length < m)]

/-- A text is blank, or it is refused behind its first blanks, or it starts with a lexeme there. -/
theorem lexing_induction {P : List Char → Prop} (blank : ∀ gap, (∀ d ∈ gap, isGap d = true) → P gap)
    (refused : ∀ gap c rest complaint, (∀ d ∈ gap, isGap d = true) → isGap c = false →
      read c rest = .error complaint → P (gap ++ c :: rest))
    (lexeme : ∀ gap c rest x tail, (∀ d ∈ gap, isGap d = true) → isGap c = false →
      read c rest = .ok (x, tail) → P tail → P (gap ++ c :: rest)) (cs : List Char) : P cs := by
  generalize size : cs.length = n
  induction n using Nat.strongRecOn generalizing cs with
  | ind n ih =>
    rcases gap_cases cs with all | ⟨gap, c, rest, rfl, all, dark⟩
    · exact blank cs all
    · cases found : read c rest with
      | error complaint => exact refused gap c rest complaint all dark found
      | ok answer =>
        obtain ⟨x, tail⟩ := answer
        exact lexeme gap c rest x tail all dark found (ih tail.length (size ▸ tail_shorter found gap) tail rfl)

theorem tokensAt_nil : tokensAt p [] = .ok [⟨.endOfInput, "", p⟩] := rfl

section Step

variable (blank : ∀ d ∈ gap, isGap d = true)
include blank

theorem tokensAt_gap : tokensAt p gap = .ok [⟨.endOfInput, "", p.after gap⟩] := tokensFrom_gap blank p

variable (dark : isGap c = false)
include dark

theorem tokensAt_refused (failed : read c rest = .error complaint) :
    tokensAt p (gap ++ c :: rest) = .error ⟨complaint, p.after gap⟩ := tokensFrom_refused_at blank dark p failed

theorem tokensAt_lexeme (found : read c rest = .ok (x, tail)) :
    tokensAt p (gap ++ c :: rest) =
      (⟨x.kind, x.text, p.after gap⟩ :: ·) <$> tokensAt ((p.after gap).after x.raw) tail := by
  rw [tokensAt, tokensFrom_lexeme blank dark p found, tokensAt,
    tokensFrom_settled (tail_shorter found gap) (Nat.lt_succ_self _)]

end Step

theorem map_cons_eq_ok {t : Token} {r : Except SyntaxError (List Token)} (h : (t :: ·) <$> r = .ok ts) :
    ∃ us, r = .ok us ∧ ts = t :: us := by
  cases r with
  | error e => cases h
  | ok us =>
    cases h
    exact ⟨us, rfl, rfl⟩

/-- Of a text that is split into tokens, blanks are left, or a lexeme stands behind its first blanks. -/
theorem tokens_induction {P : ∀ p cs ts, tokensAt p cs = .ok ts → Prop}
    (blank : ∀ p gap, (∀ d ∈ gap, isGap d = true) → ∀ h, P p gap [⟨.endOfInput, "", p.after gap⟩] h)
    (lexeme : ∀ p gap c rest x tail us, (∀ d ∈ gap, isGap d = true) → isGap c = false →
      read c rest = .ok (x, tail) → ∀ later, P ((p.after gap).after x.raw) tail us later →
        ∀ h, P p (gap ++ c :: rest) (⟨x.kind, x.text, p.after gap⟩ :: us) h)
    {p : Location} {cs : List Char} {ts : List Token} (h : tokensAt p cs = .ok ts) : P p cs ts h := by
  induction cs using lexing_induction generalizing p ts with
  | blank gap all =>
    cases (tokensAt_gap all).symm.trans h
    exact blank p gap all h
  | refused gap c rest complaint all dark failed => cases (tokensAt_refused all dark failed).symm.trans h
  | lexeme gap c rest x tail all dark found ih =>
    obtain ⟨us, later, rfl⟩ := map_cons_eq_ok ((tokensAt_lexeme all dark found).symm.trans h)
    exact lexeme p gap c rest x tail us all dark found later (ih later) h

/-- A text that is refused is refused behind its first blanks, or behind a lexeme there. -/
theorem refusal_induction {P : ∀ p cs e, tokensAt p cs = .error e → Prop}
    (refused : ∀ p gap c rest complaint, (∀ d ∈ gap, isGap d = true) → isGap c = false →
      read c rest = .error complaint → ∀ h, P p (gap ++ c :: rest) ⟨complaint, p.after gap⟩ h)
    (lexeme : ∀ p gap c rest x tail e, (∀ d ∈ gap, isGap d = true) → isGap c = false →
      read c rest = .ok (x, tail) → ∀ later, P ((p.after gap).after x.raw) tail e later →
        ∀ h, P p (gap ++ c :: rest) e h)
    {p : Location} {cs : List Char} {e : SyntaxError} (h : tokensAt p cs = .error e) : P p cs e h := by
  induction cs using lexing_induction generalizing p with
  | blank gap all => cases (tokensAt_gap all).symm.trans h
  | refused gap c rest complaint all dark failed =>
    cases (tokensAt_refused all dark failed).symm.trans h
    exact refused p gap c rest complaint all dark failed h
  | lexeme gap c rest x tail all dark found ih =>
    have step := (tokensAt_lexeme all dark found).symm.trans h
    cases later : tokensAt ((p.after gap).after x.raw) tail with
    | ok us =>
      rw [later] at step
      cases step
    | error e' =>
      rw [later] at step
      cases step
      exact lexeme p gap c rest x tail e all dark found later (ih later) h

theorem Lexed.of_tokensAt (h : tokensAt (.behind before) cs = .ok tokens) : Lexed before cs tokens := by
  generalize start : Location.behind before = p at h
  induction h using tokens_induction generalizing before with
  | blank p gap all =>
    rw [← start, Location.behind_after]
    exact .ends all
  | lexeme p gap c rest x tail us all dark found later ih =>
    obtain ⟨text, form, longest⟩ := read_eq_ok_iff.1 found
    rw [← start, Location.behind_after, text, ← List.append_assoc]
    refine .token all form longest (ih ?_)
    rw [← start, Location.behind_after, Location.behind_after]

theorem Lexed.tokensAt (h : Lexed before cs tokens) : tokensAt (.behind before) cs = .ok tokens := by
  induction h with
  | ends blank => rw [tokensAt_gap blank, Location.behind_after]
  | @token before gap raw rest kind text tokens blank form longest _ ih =>
    obtain ⟨c, cs, rfl⟩ := List.exists_cons_of_ne_nil form.ne_nil
    have found : read c (cs ++ rest) = .ok (⟨c :: cs, kind, text⟩, rest) :=
      read_eq_ok_iff.2 ⟨rfl, form, longest⟩
    rw [List.append_assoc, List.cons_append, tokensAt_lexeme blank form.not_gap found, Location.behind_after,
      Location.behind_after, ih]
    rfl

/-- Every token stands behind some first characters of the source. -/
theorem Lexed.placed (h : Lexed before cs tokens) :
    ∀ t ∈ tokens, ∃ here, here <+: before ++ cs ∧ t.location = .behind here := by
  induction h with
  | ends => exact List.forall_mem_singleton.2 ⟨_, List.prefix_refl _, rfl⟩
  | @token before gap raw rest _ _ _ _ _ _ _ ih =>
    have whole : before ++ (gap ++ raw ++ rest) = before ++ gap ++ (raw ++ rest) := by simp
    rw [whole]
    refine List.forall_mem_cons.2 ⟨⟨before ++ gap, List.prefix_append _ _, rfl⟩, ?_⟩
    rwa [List.append_assoc _ raw rest] at ih

theorem tokenize_eq_ok_iff {source : String} : tokenize source = .ok tokens ↔ Lexed [] source.toList tokens :=
  ⟨fun h => .of_tokensAt (show tokensAt (.behind []) _ = _ from h), fun h => h.tokensAt⟩

/-- A text that cannot be split into tokens is refused behind some of its first characters. -/
theorem tokensAt_error (h : tokensAt p cs = .error e) : ∃ here, here <+: cs ∧ e.location = p.after here := by
  induction h using refusal_induction with
  | refused p gap c rest => exact ⟨gap, List.prefix_append _ _, rfl⟩
  | lexeme p gap c rest x tail e all dark found later ih =>
    obtain ⟨here, first, place⟩ := ih
    refine ⟨gap ++ (x.raw ++ here), ?_, ?_⟩
    · rw [(read_eq_ok_iff.1 found).lossless]
      exact (List.prefix_append_right_inj _).2 ((List.prefix_append_right_inj _).2 first)
    · rw [place, Location.after_append, Location.after_append]

theorem tokenize_refused {source : String} {e : SyntaxError} (h : tokenize source = .error e) :
    ∃ here, here <+: source.toList ∧ e.location = .behind here := by
  obtain ⟨here, first, place⟩ := tokensAt_error h
  exact ⟨here, first, place.trans (Location.start_after here)⟩

/-- A source is the blanks and the spellings of its tokens, each as long as it can be, and each token tells
how many lines and characters are before it. A spelling stands for one token only. -/
theorem tokens_spell_source (source : String) (tokens : List Token) :
    (tokenize source = .ok tokens ↔ Lexed [] source.toList tokens) ∧
      ∀ raw m m', Form raw (some m) → (Form raw (some m') ↔ m' = m) := by
  refine ⟨tokenize_eq_ok_iff, fun raw m m' form => ?_⟩
  constructor
  · exact fun other => other.unique form
  · rintro rfl
    exact form

/-- An arrow of three characters is one token and no operator, and a comment is trimmed. -/
theorem arrow_spells_source :
    Lexed [] "x <-- 'a'\n// b ".toList
        [⟨.identifier, "x", ⟨1, 1⟩⟩, ⟨.assign, "<--", ⟨1, 3⟩⟩, ⟨.char, "a", ⟨1, 7⟩⟩, ⟨.newline, "\n", ⟨1, 10⟩⟩,
          ⟨.comment, "b", ⟨2, 1⟩⟩, ⟨.endOfInput, "", ⟨2, 6⟩⟩] ∧
      ¬ Form ['<', '-', '-'] (some (.operator, "<--")) := by
  have tokens : tokenize "x <-- 'a'\n// b " =
      .ok [⟨.identifier, "x", ⟨1, 1⟩⟩, ⟨.assign, "<--", ⟨1, 3⟩⟩, ⟨.char, "a", ⟨1, 7⟩⟩,
        ⟨.newline, "\n", ⟨1, 10⟩⟩, ⟨.comment, "b", ⟨2, 1⟩⟩, ⟨.endOfInput, "", ⟨2, 6⟩⟩] := rfl
  refine ⟨(tokens_spell_source _ _).1.1 tokens, fun form => ?_⟩
  have arrow : Form ['<', '-', '-'] (some (.assign, "<--")) := .symbol (by decide)
  have same := ((tokens_spell_source "" []).2 _ _ _ arrow).1 form
  cases same

end Pseudocode
