import Pseudocode.Token.Lexer

/-!
How tokens are written. A form is a spelling with the kind and the text that it stands for
(`Lexeme.Form`), and a text is cut behind the longest spelling at its front (`Lexeme.Cut`). The reader
of lexemes does exactly that (`Lexeme.read_eq_ok_iff`).
-/

namespace Pseudocode.Lexeme

/-- The tokens that are spelled in one way only. -/
def symbols : List (List Char × TokenKind) :=
  [(['\n'], .newline), (['←'], .assign), (['<', '-', '-'], .assign), ([','], .comma), ([':'], .colon),
   (['('], .leftParen), ([')'], .rightParen), (['['], .leftBracket), ([']'], .rightBracket),
   (['<', '='], .operator), (['<', '>'], .operator), (['>', '='], .operator), (['<'], .operator),
   (['>'], .operator), (['+'], .operator), (['-'], .operator), (['*'], .operator), (['/'], .operator),
   (['='], .operator), (['&'], .operator), (['^'], .operator)]

/-- What letters and digits behind the mark of a hexadecimal number stand for, unless they are
malformed. -/
def hexMeaning (digits : List Char) : Option (TokenKind × String) :=
  (Text.readHex digits).bind fun n =>
    if n < Nat.pow 2 64 then some (.number (Float.ofNat n), "0x" ++ String.ofList digits) else none

/-- The spellings of tokens, each with its kind and its text. A malformed number is spelled like one,
but it is none. -/
inductive Form : List Char → Option (TokenKind × String) → Prop
  | keyword {c : Char} {cs : List Char} :
    startsWord c = true → (∀ d ∈ cs, continuesWord d = true) → String.ofList (c :: cs) ∈ keywords →
      Form (c :: cs) (some (.keyword, String.ofList (c :: cs)))
  | identifier {c : Char} {cs : List Char} :
    startsWord c = true → (∀ d ∈ cs, continuesWord d = true) → String.ofList (c :: cs) ∉ keywords →
      Form (c :: cs) (some (.identifier, String.ofList (c :: cs)))
  | character {c : Char} : c ≠ '\'' → c ≠ '\n' → Form ['\'', c, '\''] (some (.char, String.ofList [c]))
  | string {quote : Char} {body : List Char} :
    quote = '"' ∨ quote = '\'' ∧ body.length ≠ 1 → (∀ c ∈ body, c ≠ quote ∧ c ≠ '\n') →
      Form (quote :: (body ++ [quote])) (some (.string, String.ofList body))
  | whole {c : Char} {cs : List Char} :
    c.isDigit = true → (∀ d ∈ cs, d.isDigit = true) →
      Form (c :: cs) (some (.number (Number.ofDigits (c :: cs) 0), String.ofList (c :: cs)))
  | fraction {c : Char} {cs digits : List Char} :
    c.isDigit = true → (∀ d ∈ cs, d.isDigit = true) → digits ≠ [] → (∀ d ∈ digits, d.isDigit = true) →
      Form (c :: (cs ++ '.' :: digits))
        (some (.number (Number.ofDigits (c :: cs ++ digits) (-(digits.length : Int))),
          String.ofList (c :: (cs ++ '.' :: digits))))
  | hexadecimal {mark : Char} {digits : List Char} :
    mark = 'x' ∨ mark = 'X' → (∀ d ∈ digits, d.isAlphanum = true) →
      Form ('0' :: mark :: digits) (hexMeaning digits)
  | comment {body : List Char} :
    '\n' ∉ body → Form ('/' :: '/' :: body) (some (.comment, String.ofList (Text.trimChars body)))
  | symbol {raw : List Char} {kind : TokenKind} :
    (raw, kind) ∈ symbols → Form raw (some (kind, String.ofList raw))

/-- No longer spelling stands at the front of `raw ++ rest`. -/
def Longest (raw rest : List Char) : Prop :=
  ∀ c more behind meaning, rest = c :: more ++ behind → ¬ Form (raw ++ c :: more) meaning

/-- A text is cut into a lexeme, which is the longest spelling at its front, and the rest. -/
structure Cut (text : List Char) (x : Lexeme) (rest : List Char) : Prop where
  lossless : text = x.raw ++ rest
  form : Form x.raw (some (x.kind, x.text))
  longest : Longest x.raw rest

variable {c : Char} {cs raw rest : List Char} {kind : TokenKind} {meaning : Option (TokenKind × String)}

section Runs

variable {p : Char → Bool} {run : List Char}

theorem takeWhile_run (inside : ∀ c ∈ run, p c = true) (ends : ∀ c, rest.head? = some c → p c = false) :
    (run ++ rest).takeWhile p = run := by
  rw [List.takeWhile_append_of_pos inside]
  cases rest with
  | nil => simp
  | cons c rest => simp [ends c rfl]

theorem dropWhile_run (inside : ∀ c ∈ run, p c = true) (ends : ∀ c, rest.head? = some c → p c = false) :
    (run ++ rest).dropWhile p = rest := by
  rw [List.dropWhile_append_of_pos inside]
  cases rest with
  | nil => rfl
  | cons c rest => simp [ends c rfl]

theorem ends_dropWhile (p : Char → Bool) (cs : List Char) :
    ∀ c, (cs.dropWhile p).head? = some c → p c = false := by
  intro c next
  have stopped := List.head?_dropWhile_not p cs
  rwa [next] at stopped

theorem inside_takeWhile (p : Char → Bool) (cs : List Char) : ∀ c ∈ cs.takeWhile p, p c = true :=
  List.all_eq_true.1 List.all_takeWhile

end Runs

theorem startsWord_of_isDigit (digit : c.isDigit = true) : startsWord c = false := by
  simp only [Char.isDigit, Bool.and_eq_true, decide_eq_true_eq, ge_iff_le, UInt32.le_iff_toNat_le] at digit
  change 48 ≤ c.toNat ∧ c.toNat ≤ 57 at digit
  have notUnderscore : c ≠ '_' := by
    rintro rfl
    exact absurd digit (by decide)
  delta startsWord Char.isAlpha Char.isUpper Char.isLower
  simp only [Bool.or_eq_false_iff, Bool.and_eq_false_iff, ge_iff_le, decide_eq_false_iff_not, UInt32.le_iff_toNat_le,
    beq_eq_false_iff_ne]
  change (¬ (65 ≤ c.toNat ∧ c.toNat ≤ 90) ∧ (¬ 97 ≤ c.toNat ∨ ¬ c.toNat ≤ 122)) ∧ c ≠ '_'
  exact ⟨by omega, notUnderscore⟩

namespace Longest

/-- What the next character would make of the spelling. -/
theorem next (h : Longest raw rest) (spelled : ∃ meaning, Form (raw ++ [c]) meaning) : rest.head? ≠ some c := by
  obtain ⟨meaning, form⟩ := spelled
  intro here
  obtain ⟨behind, rfl⟩ := List.head?_eq_some_iff.1 here
  exact h c [] behind meaning rfl form

theorem ends {p : Char → Bool} (h : Longest raw rest)
    (goesOn : ∀ c, p c = true → ∃ meaning, Form (raw ++ [c]) meaning) :
    ∀ c, rest.head? = some c → p c = false := by
  intro c here
  cases inside : p c with
  | false => rfl
  | true => exact absurd here (h.next (goesOn c inside))

end Longest

theorem word_of_reserved (reserved : String.ofList raw ∈ keywords) :
    word raw = ⟨raw, .keyword, String.ofList raw⟩ := by
  rw [word, isKeyword, List.contains_iff_mem.2 reserved]
  rfl

theorem word_of_free (free : String.ofList raw ∉ keywords) :
    word raw = ⟨raw, .identifier, String.ofList raw⟩ := by
  rw [word, isKeyword, if_neg fun listed => free (List.contains_iff_mem.1 listed)]

theorem Form.word (letter : startsWord c = true) (inside : ∀ d ∈ cs, continuesWord d = true) :
    Form (c :: cs) (some ((word (c :: cs)).kind, (word (c :: cs)).text)) := by
  by_cases reserved : String.ofList (c :: cs) ∈ keywords
  · rw [word_of_reserved reserved]
    exact .keyword letter inside reserved
  · rw [word_of_free reserved]
    exact .identifier letter inside reserved

theorem Form.ne_nil (h : Form raw meaning) : raw ≠ [] := by
  have all : ∀ s ∈ symbols, s.1 ≠ [] := by decide
  cases h with
  | symbol listed => exact all _ listed
  | _ => nofun

/-- Every spelling at the front of a text is part of a longest one. -/
theorem Form.exists_longest (h : Form raw meaning) (rest : List Char) :
    ∃ longest behind meaning, raw ++ rest = longest ++ behind ∧ Form longest meaning ∧ Longest longest behind := by
  -- By induction on the number of characters behind the spelling.
  generalize left : rest.length = n
  induction n using Nat.strongRecOn generalizing raw rest meaning with
  | ind n ih =>
    by_cases longest : Longest raw rest
    · exact ⟨raw, rest, meaning, rfl, h, longest⟩
    · simp only [Longest, Classical.not_forall, Classical.not_not] at longest
      obtain ⟨c, more, behind, other, rfl, form⟩ := longest
      obtain ⟨found, tail, what, same, spelled⟩ := ih behind.length (by simp at left; omega) form behind rfl
      refine ⟨found, tail, what, ?_, spelled⟩
      rw [← same]
      simp

section Reading

theorem read_word (letter : startsWord c = true) :
    read c cs = .ok (word (c :: cs.takeWhile continuesWord), cs.dropWhile continuesWord) := by
  have notQuote : ¬ (c = '"' ∨ c = '\'') := by
    rintro (rfl | rfl) <;> cases letter
  have notDigit : ¬ c.isDigit = true := by
    intro digit
    rw [startsWord_of_isDigit digit] at letter
    cases letter
  rw [read, if_neg notQuote, if_neg notDigit, if_pos letter]
  rfl

theorem read_quoted (quote : c = '"' ∨ c = '\'') : read c cs = quoted c cs := if_pos quote

theorem read_number (digit : c.isDigit = true) : read c cs = number (c :: cs) := by
  have notQuote : ¬ (c = '"' ∨ c = '\'') := by
    rintro (rfl | rfl) <;> cases digit
  rw [read, if_neg notQuote, if_pos digit]

/-- The first characters of comments and symbols. -/
structure IsMark (c : Char) : Prop where
  quote : ¬ (c = '"' ∨ c = '\'')
  digit : ¬ c.isDigit = true
  letter : ¬ startsWord c = true

theorem read_mark (mark : IsMark c) :
    read c cs = match punctuation (c :: cs) with
      | some found => .ok found
      | none => .error (.unexpectedCharacter c) := by
  rw [read, if_neg mark.quote, if_neg mark.digit, if_neg mark.letter]
  rfl

variable {x : Lexeme} {digits body : List Char}

/-- A quoted text up to the same quote. -/
theorem quoted_body {quote : Char} (inside : ∀ c ∈ body, c ≠ quote ∧ c ≠ '\n') :
    quoted quote (body ++ quote :: rest) =
      .ok (⟨quote :: body ++ [quote], if quote = '\'' ∧ body.length = 1 then .char else .string,
        String.ofList body⟩, rest) := by
  have all : ∀ c ∈ body, (c != quote && c != '\n') = true := by simpa using inside
  have ends : ∀ c, (quote :: rest).head? = some c → (c != quote && c != '\n') = false := by simp
  simp only [quoted, takeWhile_run all ends, dropWhile_run all ends, if_true]
  rfl

theorem hexadecimal_digits (mark : List Char) (inside : ∀ d ∈ digits, d.isAlphanum = true)
    (ends : ∀ c, rest.head? = some c → c.isAlphanum = false) :
    (hexadecimal mark (digits ++ rest)).toOption =
      (hexMeaning digits).map fun m => (⟨mark ++ digits, m.1, m.2⟩, rest) := by
  simp only [hexadecimal, takeWhile_run inside ends, dropWhile_run inside ends, hexMeaning]
  cases Text.readHex digits with
  | none => rfl
  | some n =>
    simp only [Option.bind_some]
    split <;> rfl

theorem decimal_whole (inside : ∀ d ∈ raw, d.isDigit = true)
    (ends : ∀ c, rest.head? = some c → c.isDigit = false)
    (noPoint : ∀ c behind, rest = '.' :: c :: behind → c.isDigit = false) :
    decimal (raw ++ rest) = (symbol (.number (Number.ofDigits raw 0)) raw, rest) := by
  have none : fraction rest = [] := by
    unfold fraction
    split
    · rename_i c behind
      rw [noPoint c behind rfl]
      rfl
    · rfl
  simp only [decimal, takeWhile_run inside ends, dropWhile_run inside ends, none]

theorem decimal_fraction (inside : ∀ d ∈ raw, d.isDigit = true) (present : digits ≠ [])
    (behind : ∀ d ∈ digits, d.isDigit = true) (ends : ∀ c, rest.head? = some c → c.isDigit = false) :
    decimal (raw ++ '.' :: digits ++ rest) =
      (symbol (.number (Number.ofDigits (raw ++ digits) (-(digits.length : Int)))) (raw ++ '.' :: digits),
        rest) := by
  have point : ∀ c, ('.' :: digits ++ rest).head? = some c → c.isDigit = false := by
    rintro c ⟨⟩
    rfl
  obtain ⟨d, ds, rfl⟩ := List.exists_cons_of_ne_nil present
  have found : fraction ('.' :: (d :: ds) ++ rest) = d :: ds := by
    rw [List.cons_append, List.cons_append, fraction, if_pos (behind d List.mem_cons_self)]
    exact takeWhile_run behind ends
  rw [List.append_assoc]
  simp only [decimal, takeWhile_run inside point, dropWhile_run inside point, found]
  simp

theorem number_decimal (plain : ∀ mark behind, raw = '0' :: mark :: behind → mark ≠ 'x' ∧ mark ≠ 'X') :
    number raw = .ok (decimal raw) := by
  unfold number
  split
  · exact absurd rfl (plain _ _ rfl).1
  · exact absurd rfl (plain _ _ rfl).2
  · rfl

theorem comment_body (inside : '\n' ∉ body) (ends : ∀ c, rest.head? = some c → c = '\n') :
    comment (body ++ rest) = (⟨'/' :: '/' :: body, .comment, String.ofList (Text.trimChars body)⟩, rest) := by
  have all : ∀ c ∈ body, (c != '\n') = true := by
    intro c mem
    have other : c ≠ '\n' := fun same => inside (same ▸ mem)
    simpa using other
  have stop : ∀ c, rest.head? = some c → (c != '\n') = false := by simpa using ends
  simp only [comment, takeWhile_run all stop, dropWhile_run all stop]

/-- A symbol is read where no longer one stands. -/
theorem punctuation_symbol (listed : (raw, kind) ∈ symbols) (longest : Longest raw rest) :
    punctuation (raw ++ rest) = some (symbol kind raw, rest) := by
  have next (d : Char) (more : List Char) (other : TokenKind) (longer : (raw ++ d :: more, other) ∈ symbols)
      (behind : List Char) : rest ≠ d :: (more ++ behind) :=
    fun same => longest d more behind _ same (.symbol longer)
  simp only [symbols, List.mem_cons, Prod.mk.injEq, List.not_mem_nil] at listed
  repeat' rcases listed with ⟨rfl, rfl⟩ | listed
  all_goals try rfl
  · have comparison := next '=' [] .operator (by decide)
    have unequal := next '>' [] .operator (by decide)
    have arrow := next '-' ['-'] .assign (by decide)
    simp_all [punctuation]
  · have comparison := next '=' [] .operator (by decide)
    simp_all [punctuation]
  · have notComment : rest.head? ≠ some '/' := longest.next ⟨_, .comment List.not_mem_nil⟩
    have other (behind : List Char) : rest ≠ '/' :: behind := by
      rintro rfl
      exact notComment rfl
    simp_all [punctuation]

theorem isMark_of_symbol (listed : (c :: cs, kind) ∈ symbols) : IsMark c := by
  have all : ∀ s ∈ symbols,
      s.1.head?.all (fun d => !(d == '"' || d == '\'' || d.isDigit || startsWord d)) = true := by decide
  have marked := all _ listed
  simp only [List.head?_cons, Option.all_some, Bool.not_eq_true', Bool.or_eq_false_iff, beq_eq_false_iff_ne] at marked
  obtain ⟨⟨⟨quote, apostrophe⟩, digit⟩, letter⟩ := marked
  exact ⟨by simp [quote, apostrophe], by simp [digit], by simp [letter]⟩

theorem read_longest_word (letter : startsWord c = true) (inside : ∀ d ∈ cs, continuesWord d = true)
    (longest : Longest (c :: cs) rest) : read c (cs ++ rest) = .ok (word (c :: cs), rest) := by
  have ends : ∀ d, rest.head? = some d → continuesWord d = false := by
    refine longest.ends fun d goesOn => ⟨_, .word letter ?_⟩
    simpa [or_imp, forall_and] using ⟨inside, goesOn⟩
  rw [read_word letter, takeWhile_run inside ends, dropWhile_run inside ends]

theorem unmarked (longest : Longest (c :: cs) rest) (inside : ∀ d, cs.head? = some d → d ≠ 'x' ∧ d ≠ 'X')
    (mark : Char) (behind : List Char) (same : c :: cs ++ rest = '0' :: mark :: behind) :
    mark ≠ 'x' ∧ mark ≠ 'X' := by
  cases cs with
  | nil =>
    obtain ⟨rfl, rfl⟩ := List.cons.inj same
    refine ⟨?_, ?_⟩ <;> rintro rfl
    · exact longest.next ⟨_, .hexadecimal (.inl rfl) nofun⟩ rfl
    · exact longest.next ⟨_, .hexadecimal (.inr rfl) nofun⟩ rfl
  | cons d ds =>
    simp only [List.cons_append, List.cons.injEq] at same
    obtain ⟨-, rfl, -⟩ := same
    exact inside d rfl

theorem ne_mark_of_isDigit (digit : c.isDigit = true) : c ≠ 'x' ∧ c ≠ 'X' := by
  constructor <;> rintro rfl <;> cases digit

theorem read_longest_whole (digit : c.isDigit = true) (inside : ∀ d ∈ cs, d.isDigit = true)
    (longest : Longest (c :: cs) rest) :
    read c (cs ++ rest) = .ok (symbol (.number (Number.ofDigits (c :: cs) 0)) (c :: cs), rest) := by
  have all : ∀ d ∈ c :: cs, d.isDigit = true := List.forall_mem_cons.2 ⟨digit, inside⟩
  have ends : ∀ d, rest.head? = some d → d.isDigit = false := by
    refine longest.ends fun d goesOn => ⟨_, .whole digit ?_⟩
    simpa [or_imp, forall_and] using ⟨inside, goesOn⟩
  have noPoint (d : Char) (behind : List Char) (same : rest = '.' :: d :: behind) : d.isDigit = false := by
    cases goesOn : d.isDigit with
    | false => rfl
    | true => exact absurd (.fraction digit inside nofun (by simpa using goesOn)) (longest '.' [d] behind _ same)
  have plain := unmarked longest fun d here => ne_mark_of_isDigit (inside d (List.mem_of_mem_head? here))
  rw [read_number digit, ← List.cons_append, number_decimal plain, decimal_whole all ends noPoint]

theorem read_longest_fraction (digit : c.isDigit = true) (inside : ∀ d ∈ cs, d.isDigit = true)
    (present : digits ≠ []) (behind : ∀ d ∈ digits, d.isDigit = true)
    (longest : Longest (c :: (cs ++ '.' :: digits)) rest) :
    read c (cs ++ '.' :: digits ++ rest) =
      .ok (symbol (.number (Number.ofDigits (c :: cs ++ digits) (-(digits.length : Int))))
        (c :: (cs ++ '.' :: digits)), rest) := by
  have all : ∀ d ∈ c :: cs, d.isDigit = true := List.forall_mem_cons.2 ⟨digit, inside⟩
  have ends : ∀ d, rest.head? = some d → d.isDigit = false := by
    refine longest.ends fun d goesOn => ?_
    have longer : ∀ e ∈ digits ++ [d], e.isDigit = true := by
      simpa [or_imp, forall_and] using ⟨behind, goesOn⟩
    have same : c :: (cs ++ '.' :: digits) ++ [d] = c :: (cs ++ '.' :: (digits ++ [d])) := by simp
    rw [same]
    exact ⟨_, .fraction digit inside (by simp) longer⟩
  have plain := unmarked longest fun d here => by
    cases cs with
    | nil =>
      cases here
      decide
    | cons e es =>
      cases here
      exact ne_mark_of_isDigit (inside d List.mem_cons_self)
  rw [read_number digit, ← List.cons_append, number_decimal plain]
  exact congrArg Except.ok (decimal_fraction all present behind ends)

theorem read_longest_hexadecimal {mark : Char} (hex : mark = 'x' ∨ mark = 'X')
    (inside : ∀ d ∈ digits, d.isAlphanum = true) (longest : Longest ('0' :: mark :: digits) rest) :
    (read '0' (mark :: digits ++ rest)).toOption =
      (hexMeaning digits).map fun m => (⟨'0' :: mark :: digits, m.1, m.2⟩, rest) := by
  have ends : ∀ d, rest.head? = some d → d.isAlphanum = false := by
    refine longest.ends fun d goesOn => ⟨_, .hexadecimal hex ?_⟩
    simpa [or_imp, forall_and] using ⟨inside, goesOn⟩
  rw [read_number rfl]
  rcases hex with rfl | rfl
  · exact hexadecimal_digits _ inside ends
  · exact hexadecimal_digits _ inside ends

theorem read_longest_comment (inside : '\n' ∉ body) (longest : Longest ('/' :: '/' :: body) rest) :
    read '/' ('/' :: body ++ rest) =
      .ok (⟨'/' :: '/' :: body, .comment, String.ofList (Text.trimChars body)⟩, rest) := by
  have ends (d : Char) (here : rest.head? = some d) : d = '\n' := by
    refine Decidable.byContradiction fun goesOn => longest.next ⟨_, .comment ?_⟩ here
    simpa using ⟨inside, Ne.symm goesOn⟩
  rw [read_mark ⟨by decide, by decide, by decide⟩]
  exact congrArg Except.ok (comment_body inside ends)

/-- The longest spelling is what is read, if it has a meaning. -/
theorem read_of_longest (form : Form raw meaning) (longest : Longest raw rest) (text : c :: cs = raw ++ rest) :
    (read c cs).toOption = meaning.map fun m => (⟨raw, m.1, m.2⟩, rest) := by
  cases form with
  | keyword letter inside reserved =>
    obtain ⟨rfl, rfl⟩ := List.cons.inj (text.trans List.cons_append)
    rw [read_longest_word letter inside longest, word_of_reserved reserved]
    rfl
  | identifier letter inside free =>
    obtain ⟨rfl, rfl⟩ := List.cons.inj (text.trans List.cons_append)
    rw [read_longest_word letter inside longest, word_of_free free]
    rfl
  | @character d other line =>
    obtain ⟨rfl, rfl⟩ := List.cons.inj (text.trans List.cons_append)
    rw [read_quoted (.inr rfl)]
    have inside : ∀ e ∈ [d], e ≠ '\'' ∧ e ≠ '\n' := by simpa using ⟨other, line⟩
    exact congrArg Except.toOption (quoted_body inside)
  | @string _ body delimiter inside =>
    obtain ⟨rfl, rfl⟩ := List.cons.inj (text.trans List.cons_append)
    have notChar : ¬ (c = '\'' ∧ body.length = 1) := by
      rcases delimiter with rfl | ⟨-, other⟩
      · simp
      · exact fun single => other single.2
    rw [read_quoted (delimiter.imp_right And.left), List.append_assoc, List.singleton_append,
      quoted_body inside, if_neg notChar]
    rfl
  | whole digit inside =>
    obtain ⟨rfl, rfl⟩ := List.cons.inj (text.trans List.cons_append)
    rw [read_longest_whole digit inside longest]
    rfl
  | fraction digit inside present behind =>
    obtain ⟨rfl, rfl⟩ := List.cons.inj (text.trans List.cons_append)
    rw [read_longest_fraction digit inside present behind longest]
    rfl
  | hexadecimal hex inside =>
    obtain ⟨rfl, rfl⟩ := List.cons.inj (text.trans List.cons_append)
    exact read_longest_hexadecimal hex inside longest
  | comment inside =>
    obtain ⟨rfl, rfl⟩ := List.cons.inj (text.trans List.cons_append)
    rw [read_longest_comment inside longest]
    rfl
  | symbol listed =>
    obtain ⟨d, ds, rfl⟩ := List.exists_cons_of_ne_nil (Form.symbol listed).ne_nil
    obtain ⟨rfl, rfl⟩ := List.cons.inj (text.trans List.cons_append)
    rw [read_mark (isMark_of_symbol listed), ← List.cons_append, punctuation_symbol listed longest]
    rfl

theorem Form.quoted (quote : c = '"' ∨ c = '\'') (inside : ∀ d ∈ body, d ≠ c ∧ d ≠ '\n') :
    Form (c :: (body ++ [c]))
      (some (if c = '\'' ∧ body.length = 1 then .char else .string, String.ofList body)) := by
  split
  · next single =>
    obtain ⟨rfl, length⟩ := single
    obtain ⟨d, rfl⟩ := List.length_eq_one_iff.1 length
    exact .character (inside d List.mem_cons_self).1 (inside d List.mem_cons_self).2
  · next other =>
    exact .string (quote.imp_right fun same => ⟨same, fun length => other ⟨same, length⟩⟩) inside

theorem quoted_form (quote : c = '"' ∨ c = '\'') (h : quoted c cs = .ok (x, rest)) :
    c :: cs = x.raw ++ rest ∧ Form x.raw (some (x.kind, x.text)) := by
  let p : Char → Bool := fun d => d != c && d != '\n'
  have inside : ∀ d ∈ cs.takeWhile p, d ≠ c ∧ d ≠ '\n' := by
    intro d mem
    simpa [p] using inside_takeWhile p cs d mem
  have parts : cs.takeWhile p ++ cs.dropWhile p = cs := List.takeWhile_append_dropWhile
  simp only [quoted] at h
  split at h
  · cases h
  · next d behind stop =>
    split at h
    · next closing =>
      cases h
      have stopped : cs.dropWhile p = c :: rest := closing ▸ stop
      rw [stopped] at parts
      refine ⟨?_, .quoted quote inside⟩
      show c :: cs = c :: (cs.takeWhile p ++ [c]) ++ rest
      rw [List.cons_append, List.append_assoc, List.singleton_append, parts]
    · cases h

/-- What stands behind the whole part of a number. -/
theorem fraction_cases (behind : List Char) :
    (∀ c tail, behind = '.' :: c :: tail → c.isDigit = false) ∨
      ∃ digits rest, behind = '.' :: digits ++ rest ∧ digits ≠ [] ∧ (∀ d ∈ digits, d.isDigit = true) ∧
        ∀ c, rest.head? = some c → c.isDigit = false := by
  by_cases point : ∃ c tail, behind = '.' :: c :: tail ∧ c.isDigit = true
  · obtain ⟨c, tail, rfl, digit⟩ := point
    refine .inr ⟨(c :: tail).takeWhile Char.isDigit, (c :: tail).dropWhile Char.isDigit, ?_, ?_,
      inside_takeWhile _ _, ends_dropWhile _ _⟩
    · rw [List.cons_append, List.takeWhile_append_dropWhile]
    · rw [List.takeWhile_cons_of_pos digit]
      nofun
  · refine .inl fun c tail same => ?_
    cases digit : c.isDigit with
    | false => rfl
    | true => exact absurd ⟨c, tail, same, digit⟩ point

theorem decimal_form (digit : c.isDigit = true) (h : decimal (c :: cs) = (x, rest)) :
    c :: cs = x.raw ++ rest ∧ Form x.raw (some (x.kind, x.text)) := by
  have inside := inside_takeWhile Char.isDigit cs
  have all : ∀ d ∈ c :: cs.takeWhile Char.isDigit, d.isDigit = true := List.forall_mem_cons.2 ⟨digit, inside⟩
  have parts : c :: cs = c :: cs.takeWhile Char.isDigit ++ cs.dropWhile Char.isDigit := by
    rw [List.cons_append, List.takeWhile_append_dropWhile]
  rcases fraction_cases (cs.dropWhile Char.isDigit) with noPoint | ⟨digits, tail, point, present, behind, ends⟩
  · rw [parts, decimal_whole all (ends_dropWhile _ _) noPoint] at h
    cases h
    exact ⟨parts, .whole digit inside⟩
  · rw [point, ← List.append_assoc] at parts
    rw [parts, decimal_fraction all present behind ends] at h
    cases h
    exact ⟨parts, .fraction digit inside present behind⟩

theorem hexadecimal_form {mark : Char} (hex : mark = 'x' ∨ mark = 'X')
    (h : hexadecimal ['0', mark] cs = .ok (x, rest)) :
    '0' :: mark :: cs = x.raw ++ rest ∧ Form x.raw (some (x.kind, x.text)) := by
  have inside := inside_takeWhile Char.isAlphanum cs
  have found := hexadecimal_digits ['0', mark] inside (ends_dropWhile Char.isAlphanum cs)
  rw [List.takeWhile_append_dropWhile, h] at found
  have form := Form.hexadecimal hex inside
  cases meaning : hexMeaning (cs.takeWhile Char.isAlphanum) with
  | none =>
    rw [meaning] at found
    cases found
  | some m =>
    rw [meaning] at found form
    cases found
    refine ⟨?_, form⟩
    rw [List.append_assoc, List.takeWhile_append_dropWhile]
    rfl

theorem number_form (digit : c.isDigit = true) (h : number (c :: cs) = .ok (x, rest)) :
    c :: cs = x.raw ++ rest ∧ Form x.raw (some (x.kind, x.text)) := by
  unfold number at h
  split at h
  · next same =>
    cases same
    exact hexadecimal_form (.inl rfl) h
  · next same =>
    cases same
    exact hexadecimal_form (.inr rfl) h
  · exact decimal_form digit (Except.ok.inj h)

theorem punctuation_form {text : List Char} (h : punctuation text = some (x, rest)) :
    text = x.raw ++ rest ∧ Form x.raw (some (x.kind, x.text)) := by
  unfold punctuation at h
  split at h
  case h_3 behind =>
    cases h
    have inside : '\n' ∉ behind.takeWhile (· != '\n') := by
      intro mem
      simpa using inside_takeWhile _ _ _ mem
    refine ⟨?_, .comment inside⟩
    rw [List.cons_append, List.cons_append, List.takeWhile_append_dropWhile]
  case h_14 c behind _ _ _ _ _ _ _ _ _ _ _ _ _ =>
    split at h
    · next operator =>
      cases h
      refine ⟨rfl, .symbol ?_⟩
      have all : ∀ d ∈ ['<', '>', '+', '-', '*', '/', '=', '&', '^'], ([d], TokenKind.operator) ∈ symbols := by
        simp [symbols]
      exact all c operator
    · cases h
  case h_15 => cases h
  all_goals
    cases h
    exact ⟨rfl, .symbol (by decide)⟩

theorem read_form (h : read c cs = .ok (x, rest)) : c :: cs = x.raw ++ rest ∧ Form x.raw (some (x.kind, x.text)) := by
  by_cases letter : startsWord c = true
  · rw [read_word letter] at h
    cases h
    refine ⟨?_, .word letter (inside_takeWhile _ _)⟩
    rw [word, List.cons_append, List.takeWhile_append_dropWhile]
  by_cases quote : c = '"' ∨ c = '\''
  · rw [read_quoted quote] at h
    exact quoted_form quote h
  by_cases digit : c.isDigit = true
  · rw [read_number digit] at h
    exact number_form digit h
  rw [read_mark ⟨quote, digit, letter⟩] at h
  split at h
  · next found listed =>
    cases h
    exact punctuation_form listed
  · cases h

end Reading

/-- The reader takes the longest spelling at the front of a text, if that has a meaning. -/
theorem read_eq_ok_iff {x : Lexeme} : read c cs = .ok (x, rest) ↔ Cut (c :: cs) x rest := by
  constructor
  · intro h
    obtain ⟨text, form⟩ := read_form h
    obtain ⟨raw, behind, meaning, same, longer, longest⟩ := form.exists_longest rest
    rw [← text] at same
    have found := read_of_longest longer longest same
    rw [h] at found
    cases meaning with
    | none => cases found
    | some m =>
      cases found
      exact ⟨same, longer, longest⟩
  · intro cut
    have found := read_of_longest cut.form cut.longest cut.lossless
    cases answer : read c cs with
    | error e =>
      rw [answer] at found
      cases found
    | ok y =>
      rw [answer] at found
      exact congrArg Except.ok (Option.some.inj found)

end Pseudocode.Lexeme
