import Pseudocode.Proofs.Grammar.Levels

/-!
Expressions that are written as the table of levels says are read back, and nothing behind them is taken
(`expressions_read_back`).
-/

namespace Pseudocode

open Reader

variable {finish : Location} {n : Nat} {ts us rest : List Token} {e operand : Expr}

namespace Opens

variable {level : Level} {t : Token}

theorem of_word (opening : t.kind ≠ .rightParen) (not : t.isKeyword "NOT" = false)
    (symbol : t.kind ≠ .operator) : Opens level t := by
  refine ⟨opening, fun _ => not, fun _ text _ => ?_⟩
  simp [Token.isOperator, symbol]

theorem unary_of_symbol (symbol : t.kind = .operator) : Opens .unary t := by
  refine ⟨?_, fun _ => ?_, fun tight => absurd tight (by decide)⟩
  · simp [symbol]
  · simp [Token.isKeyword, symbol]

theorem negation_of_word (word : t.kind = .keyword) : Opens .negation t :=
  ⟨by simp [word], fun tight => absurd tight (by decide), fun tight => absurd tight (by decide)⟩

end Opens

namespace Expr

mutual

/-- An expression has a first token, which is no operator that stands before a looser one. -/
theorem Bare.opens {e : Expr} {ts : List Token} : Bare e ts → ∃ t us, ts = t :: us ∧ Opens e.level t
  | .literal l spelled => by
    refine ⟨_, _, rfl, ?_⟩
    cases spelled <;> exact .of_word nofun rfl nofun
  | .identifier .. | .element .. | .callNone .. | .call .. | .allocate .. | .allocateTagged .. | .sizeOf ..
  | .endOfFile .. => ⟨_, _, rfl, .of_word nofun rfl nofun⟩
  | .negate .. | .addressOf .. | .dereference .. => ⟨_, _, rfl, .unary_of_symbol rfl⟩
  | .not .. => ⟨_, _, rfl, .negation_of_word rfl⟩
  | .binary op l left _ => by
    obtain ⟨t, us, rfl, opens⟩ := left.opens
    exact ⟨t, _, rfl, opens.mono op.level_le_leftLevel⟩

theorem Spelled.opens {level : Level} {e : Expr} {ts : List Token} :
    Spelled level e ts → ∃ t us, ts = t :: us ∧ Opens level t
  | .bare looser bare => by
    obtain ⟨t, us, rfl, opens⟩ := bare.opens
    exact ⟨t, us, rfl, opens.mono looser⟩
  | .enclosed .. => ⟨_, _, rfl, .of_word nofun rfl nofun⟩

end

theorem Items.opens {es : List Expr} {ts : List Token} (h : Items es ts) :
    ∃ t us, ts = t :: us ∧ Opens .disjunction t := by
  cases h with
  | one spelled => exact spelled.opens
  | more comma l spelled items =>
    obtain ⟨t, us, rfl, opens⟩ := spelled.opens
    exact ⟨t, _, rfl, opens⟩

/-- Where a level is due, the tokens are read as the expression. -/
abbrev ReadAt (level : Level) (e : Expr) (ts : List Token) : Prop :=
  ∀ finish n rest, Stops level.edge rest →
    Leads finish (e.depthAt level ≤ n) (nested n) level (ts ++ rest) rest e

/-- One level of nesting further in, the tokens are read as the expression. -/
abbrev ReadInside (finish : Location) (n : Nat) (e : Expr) (ts : List Token) : Prop :=
  ∀ rest, Stops .disjunction rest →
    Yields finish (e.depth + 1 ≤ n) (nested n).expression (ts ++ rest) rest e

theorem ReadAt.yields {level : Level} {e : Expr} {ts rest : List Token} (h : ReadAt level e ts)
    (stops : Stops level rest) (finish : Location) (n : Nat) :
    Yields finish (e.depthAt level ≤ n) (level.reader (nested n)) (ts ++ rest) rest e :=
  (h finish n rest (stops.mono level.le_edge)).yields stops

theorem ReadAt.inside {e : Expr} {ts : List Token} (h : ReadAt .disjunction e ts) (finish : Location)
    (n : Nat) : ReadInside finish n e ts := fun _ stops =>
  Yields.nested Nested.expression Reader.disjunction rfl (fun _ => rfl) (fun n => h.yields stops finish n) n

theorem le_deepest {n : Nat} (es : List Expr) : deepest es ≤ n ↔ ∀ e ∈ es, e.depth + 1 ≤ n := by
  induction es with
  | nil => simp [deepest]
  | cons e es ih =>
    rw [deepest, Nat.max_le, ih]
    simp

/-- Items in brackets. -/
theorem commaList_reads {es : List Expr} {ts rest : List Token} (items : Separated (ReadInside finish n) es ts)
    (stops : Stops .disjunction rest) (done : rest.head?.any (isKind .comma) = false) :
    Yields finish (deepest es ≤ n) (commaList (nested n).expression) (ts ++ rest) rest es := by
  refine (commaList_yields (Stops .disjunction) ?_ items stops done).congr (le_deepest es).symm
  exact fun comma l us => .of_mark (by simp) comma l

section Primaries

theorem literal_reads {v : Literal} {kind : TokenKind} {text : String} (l : Location)
    (spelled : v.Spelled kind text) :
    primary (nested n) finish (⟨kind, text, l⟩ :: rest) = .ok (.literal v l, rest) := by
  unfold primary
  rw [bind_of_ok peek_cons]
  cases spelled <;> rfl

/-- What a name begins. -/
theorem primary_name (inner : Nested Reader) (name : String) (l : Location) :
    primary inner finish (⟨.identifier, name, l⟩ :: ts) = named inner name l finish ts := rfl

theorem identifier_reads (name : String) (l : Location) (stops : Stops .primary rest) :
    primary (nested n) finish (⟨.identifier, name, l⟩ :: rest) = .ok (.identifier name l, rest) := by
  rw [primary_name, named, bind_of_ok (check_eq _), stops.not_kind (.inl rfl)]
  simp only [Bool.false_eq_true, if_false]
  rw [bind_of_ok (accept_of_not (stops.not_kind (.inr rfl)))]
  rfl

theorem element_yields {indices : List Expr} (items : Separated (ReadInside finish n) indices ts)
    (name opening closing : String) (l a b : Location) (rest : List Token) :
    Yields finish (deepest indices ≤ n) (primary (nested n))
      (⟨.identifier, name, l⟩ :: ⟨.leftBracket, opening, a⟩ :: (ts ++ ⟨.rightBracket, closing, b⟩ :: rest)) rest
      (.element name indices l) := by
  refine .of_eq (primary_name _ name l) ?_
  unfold named
  refine .after (check_eq _) (.after (accept_of (isKind_mk _ _ _)) ?_)
  exact (commaList_reads items (.of_mark (by simp) closing b) rfl).before rfl

theorem call_yields {args : List Expr} (items : Separated (ReadInside finish n) args ts)
    (opens : ∃ t us, ts = t :: us ∧ Opens .disjunction t) (name opening closing : String) (l a b : Location)
    (rest : List Token) :
    Yields finish (deepest args ≤ n) (primary (nested n))
      (⟨.identifier, name, l⟩ :: ⟨.leftParen, opening, a⟩ :: (ts ++ ⟨.rightParen, closing, b⟩ :: rest)) rest
      (.call name args l) := by
  have some : (ts ++ ⟨.rightParen, closing, b⟩ :: rest).head?.any (isKind .rightParen) = false := by
    obtain ⟨t, us, rfl, begins⟩ := opens
    simp [isKind, begins.opening]
  have read : Yields finish (deepest args ≤ n) (arguments (nested n))
      (⟨.leftParen, opening, a⟩ :: (ts ++ ⟨.rightParen, closing, b⟩ :: rest)) rest args := by
    unfold arguments
    refine .after (expectKind_cons _ _ _ _) (.after (accept_of_not some) ?_)
    exact (commaList_reads items (.of_mark (by simp) closing b) rfl).before rfl
  refine .of_eq (primary_name _ name l) ?_
  unfold named
  exact .after (check_eq _) (read.before rfl)

theorem enclosed_yields (inside : ReadInside finish n e ts) (opening closing : String) (l r : Location)
    (rest : List Token) :
    Yields finish (e.depth + 1 ≤ n) (primary (nested n))
      (⟨.leftParen, opening, l⟩ :: (ts ++ ⟨.rightParen, closing, r⟩ :: rest)) rest e := by
  unfold primary
  refine .after peek_cons (.after advance_cons ?_)
  exact (inside _ (.of_mark (by simp) closing r)).before rfl

theorem primary_allocation (inner : Nested Reader) (l : Location) :
    primary inner finish (⟨.keyword, "MALLOC", l⟩ :: ts) = allocation inner l finish ts := rfl

theorem allocate_yields (inside : ReadInside finish n e ts) (opening closing : String) (l a b : Location)
    (rest : List Token) :
    Yields finish (e.depth + 1 ≤ n) (primary (nested n))
      (⟨.keyword, "MALLOC", l⟩ :: ⟨.leftParen, opening, a⟩ :: (ts ++ ⟨.rightParen, closing, b⟩ :: rest)) rest
      (.allocate e none l) := by
  refine .of_eq (primary_allocation _ l) ?_
  unfold allocation
  refine .after (expectKind_cons _ _ _ _) ?_
  exact (inside _ (.of_mark (by simp) closing b)).before rfl

theorem allocateTagged_yields {tag : DataType} (inside : ReadInside finish n e ts) (spelled : tag.Spelled us)
    (opening comma closing : String) (l a b c : Location) (rest : List Token) :
    Yields finish (max (e.depth + 1) tag.depth ≤ n) (primary (nested n))
      (⟨.keyword, "MALLOC", l⟩ :: ⟨.leftParen, opening, a⟩ ::
        (ts ++ ⟨.comma, comma, b⟩ :: (us ++ ⟨.rightParen, closing, c⟩ :: rest))) rest
      (.allocate e (some tag) l) := by
  have tagged : Yields finish (tag.depth ≤ n) (some <$> typeClause (nested n))
      (us ++ ⟨.rightParen, closing, c⟩ :: rest) (⟨.rightParen, closing, c⟩ :: rest) (some tag) :=
    (typeClause_yields spelled n _).map some
  refine .of_eq (primary_allocation _ l) ?_
  unfold allocation
  refine .after (expectKind_cons _ _ _ _) ?_
  refine ((inside _ (.of_mark (by simp) comma b)).bind (.after (accept_of (isKind_mk _ _ _)) ?_)).congr
    Nat.max_le.symm
  exact tagged.before rfl

theorem sizeOf_yields {type : DataType} (spelled : type.Spelled ts) (opening closing : String)
    (l a b : Location) (rest : List Token) :
    Yields finish (type.depth ≤ n) (primary (nested n))
      (⟨.keyword, "SIZE_OF", l⟩ :: ⟨.leftParen, opening, a⟩ :: (ts ++ ⟨.rightParen, closing, b⟩ :: rest)) rest
      (.sizeOf type l) := by
  have dispatched (us : List Token) : primary (nested n) finish (⟨.keyword, "SIZE_OF", l⟩ :: us) =
      typeSize (nested n) l finish us := rfl
  refine .of_eq (dispatched _) ?_
  unfold typeSize
  exact .after (expectKind_cons _ _ _ _) ((typeClause_yields spelled n _).before rfl)

theorem endOfFile_yields (inside : ReadInside finish n e ts) (opening closing : String) (l a b : Location)
    (rest : List Token) :
    Yields finish (e.depth + 1 ≤ n) (primary (nested n))
      (⟨.keyword, "EOF", l⟩ :: ⟨.leftParen, opening, a⟩ :: (ts ++ ⟨.rightParen, closing, b⟩ :: rest)) rest
      (.endOfFile e l) := by
  have dispatched (us : List Token) : primary (nested n) finish (⟨.keyword, "EOF", l⟩ :: us) =
      Reader.endOfFile (nested n) l finish us := rfl
  refine .of_eq (dispatched _) ?_
  unfold Reader.endOfFile
  exact .after (expectKind_cons _ _ _ _) ((inside _ (.of_mark (by simp) closing b)).before rfl)

end Primaries

section Operators

variable {l : Location}

/-- An operator before its operand, which is read one level of nesting further in. -/
theorem operand_yields (node : Expr → Expr) (field : Nested Reader → Reader Expr) {level : Level} {t : Token}
    (none : field (nested 0) = fail (.tooDeep .expression))
    (some : ∀ n, field (nested (n + 1)) = level.reader (nested n))
    (dispatched : ∀ us, level.reader (nested n) finish (t :: us) =
      (do let operand ← field (nested n); pure (node operand)) finish us)
    (read : ReadAt level operand ts) (stops : Stops level rest) :
    Yields finish (operand.depthAt level + 1 ≤ n) (level.reader (nested n)) (t :: (ts ++ rest)) rest
      (node operand) := by
  have inside : Yields finish (operand.depthAt level + 1 ≤ n) (field (nested n)) (ts ++ rest) rest operand :=
    Yields.nested field level.reader none some (read.yields stops finish) n
  exact .of_eq (dispatched _) (inside.before rfl)

theorem comparison_yields {op : BinaryOperator} (compares : op.level = .comparison) {left right : Expr}
    (first : ReadAt .sum left ts) (second : ReadAt .sum right us) (stops : Stops .comparison rest) :
    Yields finish (left.depthAt .sum ≤ n ∧ right.depthAt .sum ≤ n) (comparison (nested n))
      (ts ++ op.token l :: (us ++ rest)) rest (.binary op left right l) := by
  have taken : (acceptOf op.level.operators : Reader _) finish (op.token l :: (us ++ rest)) =
      .ok (some (op, l), us ++ rest) := Level.acceptOf_token op l
  rw [compares] at taken
  have single : rest.head?.any (fun t => (comparisonOperator t).isSome) = false := by
    cases rest with
    | nil => rfl
    | cons t rest =>
      have other : comparisonOperator t = none := Level.operators_of_stops stops
      simp [other]
  have before : Stops .sum (op.token l :: (us ++ rest)) := .operator op l (compares ▸ by decide)
  unfold comparison
  refine (first.yields before finish n).bind (.after taken ?_)
  refine (second.yields (stops.mono (by decide)) finish n).before ?_
  rw [bind_of_ok (check_eq _), single]
  rfl

theorem binary_leads {op : BinaryOperator} {left right : Expr} (first : ReadAt op.leftLevel left ts)
    (second : ReadAt op.rightLevel right us) (stops : Stops op.level.edge rest) :
    Leads finish ((binary op left right l).depth ≤ n) (nested n) op.level
      (ts ++ op.token l :: (us ++ rest)) rest (.binary op left right l) := by
  have depths : left.depthAt op.leftLevel ≤ n ∧ right.depthAt op.rightLevel ≤ n ↔
      (binary op left right l).depth ≤ n := Nat.max_le.symm
  refine Leads.congr ?_ depths
  -- A comparison takes two operands of the next level and no more. The others take as their left operand all
  -- that the reader of their own level has read so far.
  by_cases compares : op.level = .comparison
  · have leftLevel : op.leftLevel = .sum := if_pos compares
    have rightLevel : op.rightLevel = .sum := congrArg Level.tighter compares
    rw [leftLevel] at first ⊢
    rw [rightLevel] at second ⊢
    rw [compares] at stops ⊢
    exact .of_yields rfl (comparison_yields compares first second stops)
  · have leftLevel : op.leftLevel = op.level := if_neg compares
    have chained : op.level.chains = true := by
      revert compares
      cases op <;> decide
    rw [leftLevel] at first ⊢
    rw [Level.edge_of_chains chained] at stops
    have before : Stops op.level.edge (op.token l :: (us ++ rest)) :=
      .operator op l (Level.lt_edge_of_chains chained)
    exact .binary chained (first finish n _ before) (second.yields stops finish n)

end Operators

-- By induction on how the expression is written. What follows it is left open, since behind a left operand
-- that is its operator.
mutual

/-- An expression without parentheses is read at its own level. -/
theorem Bare.leads {e : Expr} {ts : List Token} : Bare e ts → ∀ finish n rest, Stops e.level.edge rest →
    Leads finish (e.depth ≤ n) (nested n) e.level (ts ++ rest) rest e
  | .literal l spelled, finish, n, rest, stops =>
    .of_yields rfl ((Yields.of_ok (literal_reads l spelled)).congr (by simp [depth]))
  | .identifier name l, finish, n, rest, stops =>
    .of_yields rfl ((Yields.of_ok (identifier_reads name l stops)).congr (by simp [depth]))
  | .element name opening closing l a b items, finish, n, rest, stops => by
    simp only [List.cons_append, List.append_assoc, List.nil_append]
    exact .of_yields rfl (element_yields (items.read finish n) name opening closing l a b rest)
  | .callNone name opening closing l a b, finish, n, rest, stops =>
    .of_yields rfl ((Yields.of_ok rfl).congr (by simp [depth, deepest]))
  | .call name opening closing l a b items, finish, n, rest, stops => by
    simp only [List.cons_append, List.append_assoc, List.nil_append]
    exact .of_yields rfl (call_yields (items.read finish n) items.opens name opening closing l a b rest)
  | .allocate opening closing l a b size, finish, n, rest, stops => by
    simp only [List.cons_append, List.append_assoc, List.nil_append]
    exact .of_yields rfl (allocate_yields (size.read.inside finish n) opening closing l a b rest)
  | .allocateTagged opening comma closing l a b c size tag, finish, n, rest, stops => by
    simp only [List.cons_append, List.append_assoc, List.nil_append]
    exact .of_yields rfl
      (allocateTagged_yields (size.read.inside finish n) tag opening comma closing l a b c rest)
  | .sizeOf opening closing l a b type, finish, n, rest, stops => by
    simp only [List.cons_append, List.append_assoc, List.nil_append]
    exact .of_yields rfl (sizeOf_yields type opening closing l a b rest)
  | .endOfFile opening closing l a b file, finish, n, rest, stops => by
    simp only [List.cons_append, List.append_assoc, List.nil_append]
    exact .of_yields rfl (endOfFile_yields (file.read.inside finish n) opening closing l a b rest)
  | .negate l operand, finish, n, rest, stops =>
    .of_yields rfl (operand_yields (.unary .negate · l) Nested.unary rfl (fun _ => rfl) (fun _ => rfl)
      operand.read stops)
  | .addressOf l operand, finish, n, rest, stops =>
    .of_yields rfl (operand_yields (.addressOf · l) Nested.unary rfl (fun _ => rfl) (fun _ => rfl)
      operand.read stops)
  | .dereference l operand, finish, n, rest, stops =>
    .of_yields rfl (operand_yields (.dereference · l) Nested.unary rfl (fun _ => rfl) (fun _ => rfl)
      operand.read stops)
  | .not l operand, finish, n, rest, stops =>
    .of_yields rfl (operand_yields (.unary .not · l) Nested.negation rfl (fun _ => rfl) (fun _ => rfl)
      operand.read stops)
  | .binary op l left right, finish, n, rest, stops => by
    rw [List.append_assoc, List.cons_append]
    exact binary_leads left.read right.read stops

theorem Spelled.read {level : Level} {e : Expr} {ts : List Token} : Spelled level e ts → ReadAt level e ts
  | .bare looser bare, finish, n, rest, stops => by
    have read := bare.leads finish n rest (stops.mono (Level.edge_mono looser))
    have depths : e.depthAt level = e.depth := if_pos looser
    obtain ⟨t, us, rfl, opens⟩ := bare.opens
    rw [depths]
    exact read.lower opens looser stops
  | .enclosed opening closing l r tighter spelled, finish, n, rest, stops => by
    have read := enclosed_yields (spelled.read.inside finish n) opening closing l r rest
    have depths : e.depthAt level = e.depth + 1 := if_neg tighter
    have primary : Leads finish (e.depth + 1 ≤ n) (nested n) .primary _ rest e := .of_yields rfl read
    rw [depths]
    simp only [List.cons_append, List.append_assoc, List.nil_append]
    exact primary.lower (.of_word nofun rfl nofun) level.le_primary stops

theorem Items.read {es : List Expr} {ts : List Token} : Items es ts → ∀ finish n,
    Separated (ReadInside finish n) es ts
  | .one spelled, finish, n => .one (spelled.read.inside finish n)
  | .more comma l spelled items, finish, n => .more comma l (spelled.read.inside finish n) (items.read finish n)

end

end Expr

theorem Stops.of_not_continues (h : ∀ t, rest.head? = some t → ¬ t.Continues) : Stops .disjunction rest := by
  intro t here
  have ends := h t here
  exact ⟨fun paren => ends (.inl paren), fun bracket => ends (.inr (.inl bracket)),
    fun op same => absurd (.inr (.inr ⟨op, same⟩)) ends⟩

/-- An expression can be written unless an element has no index or a type cannot be written. However it is
written, with parentheses just where the levels ask for them, it is read back with the places of its
tokens, and all that follows is left; but if it is nested too deeply, that is the error. -/
theorem expressions_read_back (e : Expr) :
    (e.Writable ↔ ∃ ts, Expr.Spelled .disjunction e ts) ∧
      ∀ ts rest finish, Expr.Spelled .disjunction e ts → (∀ t, rest.head? = some t → ¬ t.Continues) →
        if e.depth < maxNesting then (Reader.expression : Reader _) finish (ts ++ rest) = .ok (e, rest)
        else ∃ place, (Reader.expression : Reader _) finish (ts ++ rest) = .error ⟨.tooDeep .expression, place⟩ := by
  refine ⟨⟨fun writable => Expr.Writable.spelled e writable .disjunction .start, ?_⟩, ?_⟩
  · rintro ⟨ts, spelled⟩
    exact spelled.writable
  · intro ts rest finish spelled ends
    have read := spelled.read.inside finish maxNesting rest (.of_not_continues ends)
    split
    · next fits => exact read.reads fits
    · next deep => exact read.fails deep

/-- The same two symbols stand for a product and a dereference, a concatenation and an address. -/
theorem symbols_read_back :
    (Reader.expression : Reader _) ⟨1, 13⟩
        [⟨.identifier, "a", ⟨1, 1⟩⟩, ⟨.operator, "*", ⟨1, 3⟩⟩, ⟨.operator, "*", ⟨1, 5⟩⟩,
          ⟨.identifier, "p", ⟨1, 6⟩⟩, ⟨.operator, "&", ⟨1, 8⟩⟩, ⟨.operator, "&", ⟨1, 10⟩⟩,
          ⟨.identifier, "q", ⟨1, 11⟩⟩, ⟨.newline, "", ⟨1, 12⟩⟩] =
      .ok (.binary .concat
        (.binary .mul (.identifier "a" ⟨1, 1⟩) (.dereference (.identifier "p" ⟨1, 6⟩) ⟨1, 5⟩) ⟨1, 3⟩)
        (.addressOf (.identifier "q" ⟨1, 11⟩) ⟨1, 10⟩) ⟨1, 8⟩, [⟨.newline, "", ⟨1, 12⟩⟩]) := by
  have name (level : Level) (text : String) (l : Location) :
      Expr.Spelled level (.identifier text l) [⟨.identifier, text, l⟩] :=
    .bare level.le_primary (.identifier text l)
  have product := Expr.Bare.binary .mul ⟨1, 3⟩ (name _ "a" ⟨1, 1⟩)
    (.bare (by decide) (.dereference ⟨1, 5⟩ (name _ "p" ⟨1, 6⟩)))
  have spelled := Expr.Bare.binary .concat ⟨1, 8⟩ (.bare (by decide) product)
    (.bare (by decide) (.addressOf ⟨1, 10⟩ (name _ "q" ⟨1, 11⟩)))
  have ends : ∀ t, [(⟨.newline, "", ⟨1, 12⟩⟩ : Token)].head? = some t → ¬ t.Continues := by
    rintro t ⟨⟩ (paren | bracket | ⟨op, same⟩)
    · contradiction
    · contradiction
    · rcases op.kind_token ⟨1, 12⟩ with kind | kind <;> rw [← same] at kind <;> contradiction
  have read := (expressions_read_back _).2 _ _ ⟨1, 13⟩ (.bare (by decide) spelled) ends
  rw [if_pos (by decide)] at read
  exact read

end Pseudocode
