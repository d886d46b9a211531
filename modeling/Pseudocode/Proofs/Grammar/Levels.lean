import Pseudocode.Proofs.Grammar.Reading

/-!
The readers of the levels. What is read at one level is read at every looser level as well, if nothing
follows that belongs to it (`Leads.lower`). At a level whose operators group to the left, the reader may
have more to come when it has read an expression: it then goes on from that (`Leads`).
-/

namespace Pseudocode

open Reader

/-- Nothing follows that an expression goes on with where a level is due. -/
def Stops (level : Level) (rest : List Token) : Prop :=
  ∀ t, rest.head? = some t → t.kind ≠ .leftParen ∧ t.kind ≠ .leftBracket ∧
    ∀ op : BinaryOperator, t = op.token t.location → op.level < level

namespace Stops

variable {level own : Level} {rest : List Token} {t : Token}

theorem mono (h : Stops level rest) (looser : level ≤ own) : Stops own rest := by
  intro t here
  obtain ⟨paren, bracket, operator⟩ := h t here
  exact ⟨paren, bracket, fun op same => Nat.lt_of_lt_of_le (operator op same) looser⟩

/-- A comma or a closing bracket follows. -/
theorem of_mark {kind : TokenKind} (mark : kind ∈ [.comma, .rightParen, .rightBracket]) (text : String)
    (l : Location) : Stops level (⟨kind, text, l⟩ :: rest) := by
  intro t here
  cases here
  simp only [List.mem_cons, List.not_mem_nil, or_false] at mark
  refine ⟨?_, ?_, fun op same => ?_⟩
  · rcases mark with rfl | rfl | rfl <;> nofun
  · rcases mark with rfl | rfl | rfl <;> nofun
  · have known := op.kind_token l
    rw [← same] at known
    rcases mark with rfl | rfl | rfl <;> simp at known

/-- What follows the left operand of an operator. -/
theorem operator (op : BinaryOperator) (l : Location) (tighter : op.level < level) :
    Stops level (op.token l :: rest) := by
  intro t here
  cases here
  refine ⟨fun paren => ?_, fun bracket => ?_, fun op' same => ?_⟩
  · rcases op.kind_token l with kind | kind <;> simp [kind] at paren
  · rcases op.kind_token l with kind | kind <;> simp [kind] at bracket
  · rw [← BinaryOperator.token_injective same]
    exact tighter

theorem not_kind (h : Stops level rest) {kind : TokenKind} (mark : kind = .leftParen ∨ kind = .leftBracket) :
    rest.head?.any (isKind kind) = false := by
  cases rest with
  | nil => rfl
  | cons t rest =>
    obtain ⟨paren, bracket, -⟩ := h t rfl
    rcases mark with rfl | rfl
    · simp [isKind, paren]
    · simp [isKind, bracket]

end Stops

namespace Level

/-- The operators of a level. -/
def operators : Level → OperatorClass
  | .disjunction => orOperator
  | .conjunction => andOperator
  | .comparison => comparisonOperator
  | .sum => sumOperator
  | .product => productOperator
  | .negation | .unary | .primary => fun _ => none

theorem operators_token (op : BinaryOperator) (l : Location) : op.level.operators (op.token l) = some op := by
  cases op <;> rfl

theorem level_of_operators {level : Level} {t : Token} {op : BinaryOperator}
    (known : level.operators t = some op) : op.level = level ∧ t = op.token t.location := by
  obtain ⟨kind, text, l⟩ := t
  cases level with
  | disjunction =>
    simp only [operators, orOperator, Token.isKeyword, Option.ite_none_right_eq_some, Bool.and_eq_true,
      decide_eq_true_eq, beq_iff_eq, Option.some.injEq] at known
    obtain ⟨⟨rfl, rfl⟩, rfl⟩ := known
    exact ⟨rfl, rfl⟩
  | conjunction =>
    simp only [operators, andOperator, Token.isKeyword, Option.ite_none_right_eq_some, Bool.and_eq_true,
      decide_eq_true_eq, beq_iff_eq, Option.some.injEq] at known
    obtain ⟨⟨rfl, rfl⟩, rfl⟩ := known
    exact ⟨rfl, rfl⟩
  | comparison =>
    simp only [operators, comparisonOperator] at known
    split at known <;> cases known <;> exact ⟨rfl, rfl⟩
  | sum =>
    simp only [operators, sumOperator] at known
    split at known <;> cases known <;> exact ⟨rfl, rfl⟩
  | product =>
    simp only [operators, productOperator] at known
    split at known <;> cases known <;> exact ⟨rfl, rfl⟩
  | negation | unary | primary => contradiction

/-- An operator stands here. -/
theorem acceptOf_token {finish : Location} {ts : List Token} (op : BinaryOperator) (l : Location) :
    (acceptOf op.level.operators : Reader _) finish (op.token l :: ts) = .ok (some (op, l), ts) := by
  unfold acceptOf
  rw [bind_of_ok peek_cons]
  simp only [operators_token]
  rfl

theorem operators_of_stops {level : Level} {t : Token} {rest : List Token} (h : Stops level (t :: rest)) :
    level.operators t = none := by
  cases known : level.operators t with
  | none => rfl
  | some op =>
    obtain ⟨same, token⟩ := level_of_operators known
    have looser := (h t rfl).2.2 op token
    rw [same] at looser
    exact absurd looser (Nat.lt_irrefl _)

theorem acceptOf_of_stops {level : Level} {finish : Location} {rest : List Token} (h : Stops level rest) :
    (acceptOf level.operators : Reader _) finish rest = .ok (none, rest) := by
  cases rest with
  | nil => rfl
  | cons t rest =>
    unfold acceptOf
    rw [bind_of_ok peek_cons]
    simp only [operators_of_stops h]
    rfl

/-- The reader of a level. -/
def reader {m : Type → Type} [Monad m] [Cursor m] (inner : Nested m) : Level → m Expr
  | .disjunction => Reader.disjunction inner
  | .conjunction => Reader.conjunction inner
  | .negation => Reader.negation inner
  | .comparison => Reader.comparison inner
  | .sum => Reader.sum inner
  | .product => Reader.product inner
  | .unary => Reader.unary inner
  | .primary => Reader.primary inner

/-- Operators of the level group to the left. -/
def chains : Level → Bool
  | .disjunction | .conjunction | .sum | .product => true
  | .negation | .comparison | .unary | .primary => false

theorem reader_of_chains {level : Level} (chained : level.chains = true) (inner : Nested Reader) :
    level.reader inner = chain level.operators (level.tighter.reader inner) := by
  cases level <;> first | rfl | contradiction

/-- How reading goes on at a level when an expression of it has been read. -/
def resume (level : Level) (inner : Nested Reader) (k : Nat) (e : Expr) : Reader Expr :=
  if level.chains then chainFrom level.operators (level.tighter.reader inner) k e else pure e

/-- The loosest level whose operators must not follow, if reading may go on. -/
def edge (level : Level) : Level := if level.chains then level.tighter else level

theorem le_edge (level : Level) : level ≤ level.edge := by
  cases level <;> decide

theorem edge_mono {level own : Level} (looser : level ≤ own) : level.edge ≤ own.edge := by
  revert looser
  cases level <;> cases own <;> decide

theorem edge_of_chains {level : Level} (chained : level.chains = true) : level.edge = level.tighter :=
  if_pos chained

theorem lt_edge_of_chains {level : Level} (chained : level.chains = true) : level < level.edge := by
  revert chained
  cases level <;> decide

theorem edge_le_tighter (level : Level) : level.edge ≤ level.tighter := by
  cases level <;> decide

end Level

/-- Read at a level, the tokens give an expression, from which reading goes on behind them; or the nesting
is too deep. -/
structure Leads (finish : Location) (fits : Prop) (inner : Nested Reader) (level : Level) (ts rest : List Token)
    (e : Expr) : Prop where
  reads : fits → ∃ k, count rest ≤ k ∧ level.reader inner finish ts = level.resume inner k e finish rest
  fails : ¬ fits → ∃ place, level.reader inner finish ts = .error ⟨.tooDeep .expression, place⟩

/-- The first token of an expression of a level: no operator that stands before a looser one, and no closing
bracket. -/
structure Opens (level : Level) (t : Token) : Prop where
  opening : t.kind ≠ .rightParen
  negation : .negation < level → t.isKeyword "NOT" = false
  unary : .unary < level → ∀ symbol ∈ ["-", "&", "*"], t.isOperator symbol = false

theorem Opens.mono {level own : Level} {t : Token} (h : Opens own t) (looser : level ≤ own) : Opens level t :=
  ⟨h.opening, fun tight => h.negation (Nat.lt_of_lt_of_le tight looser),
    fun tight => h.unary (Nat.lt_of_lt_of_le tight looser)⟩

namespace Leads

variable {finish : Location} {fits : Prop} {inner : Nested Reader} {level own : Level} {ts rest : List Token}
  {e : Expr}

theorem congr {fits' : Prop} (h : Leads finish fits inner level ts rest e) (same : fits ↔ fits') :
    Leads finish fits' inner level ts rest e :=
  ⟨fun fit => h.reads (same.2 fit), fun deep => h.fails fun fit => deep (same.1 fit)⟩

/-- Where operators do not group to the left, nothing more is to come. -/
theorem of_yields (single : level.chains = false) (h : Yields finish fits (level.reader inner) ts rest e) :
    Leads finish fits inner level ts rest e := by
  refine ⟨fun fit => ⟨count rest, Nat.le_refl _, ?_⟩, h.fails⟩
  rw [h.reads fit, Level.resume, single]
  rfl

/-- Nothing of the level follows. -/
theorem yields (h : Leads finish fits inner level ts rest e) (stops : Stops level rest) :
    Yields finish fits (level.reader inner) ts rest e := by
  refine ⟨fun fit => ?_, h.fails⟩
  obtain ⟨k, -, ran⟩ := h.reads fit
  rw [ran, Level.resume]
  split
  · cases k with
    | zero => rfl
    | succ k =>
      unfold chainFrom
      rw [bind_of_ok (Level.acceptOf_of_stops stops)]
      rfl
  · rfl

/-- What is read at the next level is read at this one. -/
theorem loosen {t : Token} (notPrimary : level ≠ .primary)
    (h : Yields finish fits (level.tighter.reader inner) (t :: ts) rest e) (opens : Opens level.tighter t)
    (stops : Stops level.edge rest) : Leads finish fits inner level (t :: ts) rest e := by
  cases chained : level.chains with
  | true =>
    have same := Level.reader_of_chains chained inner
    constructor
    · intro fit
      refine ⟨count rest, Nat.le_refl _, ?_⟩
      rw [same, chain, bind_of_ok (h.reads fit), Level.resume, chained]
      rfl
    · intro deep
      obtain ⟨place, failed⟩ := h.fails deep
      rw [same, chain]
      exact ⟨place, bind_of_error failed⟩
  | false =>
    refine of_yields chained ?_
    cases level with
    | negation =>
      obtain ⟨l, here⟩ := place_ok finish (t :: ts)
      exact .after here (.after (accept_cons_of_not (opens.negation (by decide))) h)
    | comparison =>
      have ended : (acceptOf comparisonOperator : Reader _) finish rest = .ok (none, rest) :=
        Level.acceptOf_of_stops (stops : Stops .comparison rest)
      refine h.before ?_
      rw [bind_of_ok ended]
      rfl
    | unary =>
      have absent := opens.unary (by decide)
      obtain ⟨l, here⟩ := place_ok finish (t :: ts)
      refine .after here (.after (accept_cons_of_not (absent "-" (by simp))) ?_)
      refine .after (accept_cons_of_not (absent "&" (by simp))) ?_
      exact .after (accept_cons_of_not (absent "*" (by simp))) h
    | primary => contradiction
    | _ => contradiction

/-- What is read at a level is read at every looser one. -/
theorem lower {t : Token} (h : Leads finish fits inner own (t :: ts) rest e) (opens : Opens own t)
    (looser : level ≤ own) (stops : Stops level.edge rest) :
    Leads finish fits inner level (t :: ts) rest e := by
  -- By induction on the number of levels between the two.
  obtain ⟨gap, between⟩ := Nat.exists_eq_add_of_le looser
  induction gap generalizing level with
  | zero =>
    have same : own = level := Level.rank_injective between
    exact same ▸ h
  | succ gap ih =>
    have notPrimary : level ≠ .primary := by
      rintro rfl
      have tight : own.rank ≤ Level.rank .primary := own.le_primary
      omega
    have next := Level.rank_tighter notPrimary
    have below : level.tighter ≤ own := Level.le_def.2 (by omega)
    have read := ih below (stops.mono (Nat.le_trans level.edge_le_tighter level.tighter.le_edge)) (by omega)
    exact loosen notPrimary (read.yields (stops.mono level.edge_le_tighter)) (opens.mono below) stops

/-- An operator that groups to the left takes what was read so far as its left operand. -/
theorem binary {op : BinaryOperator} {fits' : Prop} {left right : Expr} {us : List Token} {l : Location}
    (chained : op.level.chains = true)
    (first : Leads finish fits inner op.level ts (op.token l :: (us ++ rest)) left)
    (second : Yields finish fits' (op.level.tighter.reader inner) (us ++ rest) rest right) :
    Leads finish (fits ∧ fits') inner op.level ts rest (.binary op left right l) := by
  have goesOn (k : Nat) : op.level.resume inner (k + 1) left finish (op.token l :: (us ++ rest)) =
      (do
        let right ← op.level.tighter.reader inner
        op.level.resume inner k (.binary op left right l)) finish (us ++ rest) := by
    simp only [Level.resume, chained, if_true]
    rw [chainFrom, bind_of_ok (Level.acceptOf_token op l)]
  have dark : isKind .newline (op.token l) = false := by cases op <;> rfl
  have room {k : Nat} (enough : count (op.token l :: (us ++ rest)) ≤ k) : ∃ k', k = k' + 1 ∧ count rest ≤ k' := by
    rw [count_cons dark, count_append] at enough
    exact ⟨k - 1, by omega, by omega⟩
  constructor
  · intro ⟨fit, fit'⟩
    obtain ⟨k, enough, ran⟩ := first.reads fit
    obtain ⟨k, rfl, left⟩ := room enough
    refine ⟨k, left, ?_⟩
    rw [ran, goesOn, bind_of_ok (second.reads fit')]
  · intro deep
    by_cases fit : fits
    · obtain ⟨k, enough, ran⟩ := first.reads fit
      obtain ⟨k, rfl, -⟩ := room enough
      obtain ⟨place, failed⟩ := second.fails fun fit' => deep ⟨fit, fit'⟩
      refine ⟨place, ?_⟩
      rw [ran, goesOn, bind_of_error failed]
    · exact first.fails fit

end Leads

end Pseudocode
