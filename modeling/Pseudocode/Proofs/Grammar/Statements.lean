import Pseudocode.Proofs.Grammar.Lines
import Pseudocode.Proofs.Reading.Locality

/-!
The statements of one line, parameters and labels are read back, and only the end of the line is taken with them
(`Stmt.Spelled.read`).
-/

namespace Pseudocode

open Reader

variable {α β : Type} {finish l a b : Location} {ts us mid left rest : List Token} {t : Token}

namespace Reader

theorem bind_ok {x : Reader α} {f : α → Reader β} {a : α} {b : β} (ran : x finish ts = .ok (a, mid))
    (next : f a finish mid = .ok (b, rest)) : (x >>= f) finish ts = .ok (b, rest) := by
  rw [bind_of_ok ran, next]

theorem map_ok {x : Reader α} {a : α} (g : α → β) (ran : x finish ts = .ok (a, rest)) :
    (g <$> x) finish ts = .ok (g a, rest) := by
  rw [map_eq_pure_bind, bind_of_ok ran]
  rfl

theorem expectIdentifier_cons (name : String) (l : Location) :
    (expectIdentifier : Reader _) finish (⟨.identifier, name, l⟩ :: ts) = .ok (name, ts) := rfl

theorem expectKind_of {kind : TokenKind} (what : String) (here : t.kind = kind) :
    (expectKind kind what : Reader _) finish (t :: ts) = .ok ((), ts) := by
  subst here
  exact expectKind_cons _ what t.text t.location

namespace Done

theorem mark {kind : TokenKind} (mark : kind ∈ [.newline, .comma, .colon, .assign, .rightParen]) (text : String)
    (l : Location) (rest : List Token) : Done (⟨kind, text, l⟩ :: rest) := by
  rintro t ⟨⟩ (paren | bracket | ⟨op, same⟩)
  · subst paren
    simp at mark
  · subst bracket
    simp at mark
  · have symbol := op.kind_token l
    rw [← same] at symbol
    rcases symbol with rfl | rfl <;> simp at mark

theorem word {word : String} (other : word ∉ ["DIV", "MOD", "AND", "OR"]) (l : Location) (rest : List Token) :
    Done (⟨.keyword, word, l⟩ :: rest) := by
  rintro t ⟨⟩ (paren | bracket | ⟨op, same⟩)
  · contradiction
  · contradiction
  · cases op <;> cases same <;> simp [BinaryOperator.symbol] at other

end Done

end Reader

section Shows

variable {e : Expr} {type : DataType}

/-- What is read alone is read wherever it stands. -/
theorem Shows.reads {E : List Token → Prop} {k : Nat} {r : Reader α} {a : α} (h : Shows r a ts) (loc : Local E k r)
    (ends : E rest) : r finish (ts ++ rest) = .ok (a, rest) := by
  obtain ⟨_, ran⟩ := h
  exact loc.grows ran finish rest fun _ => ends

theorem Shows.read_expression (h : Shows expression e ts) (done : Done rest) :
    (expression : Reader _) finish (ts ++ rest) = .ok (e, rest) :=
  h.reads expression_local done

theorem Shows.read_type (h : Shows Reader.type type ts) :
    (Reader.type : Reader _) finish (ts ++ rest) = .ok (type, rest) :=
  h.reads (type_local : Local (fun _ => True) 1 Reader.type) trivial

theorem Shows.read_target (h : Shows (unary outermost) e ts) (target : e.IsTarget) (done : Done rest) :
    (assignable : Reader _) finish (ts ++ rest) = .ok (e, rest) := by
  obtain ⟨l, here⟩ := place_ok finish (ts ++ rest)
  refine bind_ok here (bind_ok (h.reads (Local.unary (nested_local maxNesting)) done) ?_)
  cases e <;> first | rfl | exact target.elim

/-- No expression starts with a closing parenthesis or the end of a line. -/
theorem expression_refuses {kind : TokenKind} (other : kind = .rightParen ∨ kind = .newline) (text : String)
    (l finish : Location) (ts : List Token) :
    ∃ e, (expression : Reader _) finish (⟨kind, text, l⟩ :: ts) = .error e := by
  rcases other with rfl | rfl
  · exact ⟨_, rfl⟩
  · exact ⟨_, rfl⟩

theorem Shows.opens (h : Shows expression e ts) :
    ∃ t us, ts = t :: us ∧ t.kind ≠ .rightParen ∧ t.kind ≠ .newline := by
  obtain ⟨finish, ran⟩ := h
  cases ts with
  | nil => exact absurd (expression_local.takes.nil ran).1 Nat.one_ne_zero
  | cons t us =>
    have refused {kind : TokenKind} (other : kind = .rightParen ∨ kind = .newline) : t.kind ≠ kind := by
      intro same
      subst same
      obtain ⟨e, failed⟩ := expression_refuses other t.text t.location finish us
      rw [ran] at failed
      cases failed
    exact ⟨t, us, rfl, refused (.inl rfl), refused (.inr rfl)⟩

theorem Separated.opens {es : List Expr} (h : Separated (Shows expression) es ts) :
    ∃ t us, ts = t :: us ∧ t.kind ≠ .rightParen := by
  cases h with
  | one shown =>
    obtain ⟨t, us, rfl, other, -⟩ := shown.opens
    exact ⟨t, us, rfl, other⟩
  | more comma l shown =>
    obtain ⟨t, us, rfl, other, -⟩ := shown.opens
    exact ⟨t, _, rfl, other⟩

theorem Separated.read_expressions {es : List Expr} (h : Separated (Shows expression) es ts) (done : Done rest)
    (last : rest.head?.any (isKind .comma) = false) :
    commaList (expression : Reader _) finish (ts ++ rest) = .ok (es, rest) := by
  have items : Separated (fun e ts => ∀ rest, Done rest → Yields finish True expression (ts ++ rest) rest e) es ts :=
    h.mono fun e ts shown rest done => .of_ok (shown.read_expression done)
  have read := commaList_yields Done (fun comma l us => .mark (by simp) comma l us) items done last
  exact read.reads fun _ _ => trivial

end Shows

/-- The end of a line, or of the input. -/
inductive LineEnd : List Token → List Token → Prop
  | newline (text : String) (l : Location) (rest : List Token) : LineEnd (⟨.newline, text, l⟩ :: rest) rest
  | finished : LineEnd [] []

namespace LineEnd

theorem reads (h : LineEnd rest left) : (endOfStatement : Reader _) finish rest = .ok ((), left) := by
  cases h with
  | newline text l => exact bind_ok rfl (expectKind_cons .newline _ text l)
  | finished => rfl

theorem done (h : LineEnd rest left) : Done rest := by
  cases h with
  | newline text l => exact .mark (by simp) text l _
  | finished => exact nofun

theorem not_sort (h : LineEnd rest left) {sort : Token → Bool} (other : ∀ text l, sort ⟨.newline, text, l⟩ = false) :
    rest.head?.any sort = false := by
  cases h with
  | newline text l => exact other text l
  | finished => rfl

end LineEnd

section Statements

variable {value file target pointer : Expr} {level : Reader.Level} {inner : Blocks Reader}

theorem constant_reads (name : String) (equals : t.isOperator "=" = true ∨ t.kind = .assign)
    (shown : Shows expression value ts) (ended : LineEnd rest left) :
    (constant l : Reader _) finish (⟨.identifier, name, a⟩ :: t :: (ts ++ rest)) =
      .ok (.constant name value l, left) := by
  have closing : (do let value ← expression; endOfStatement; pure (.constant name value l) : Reader Stmt) finish
      (ts ++ rest) = .ok (.constant name value l, left) :=
    bind_ok (shown.read_expression ended.done) (bind_ok ended.reads rfl)
  refine bind_ok (expectIdentifier_cons name a) ?_
  rcases equals with equals | assigns
  · exact bind_ok (accept_of equals) closing
  · have other : t.isOperator "=" = false := by simp [Token.isOperator, assigns]
    exact bind_ok (accept_cons_of_not other) (bind_ok (expectKind_of _ assigns) closing)

theorem assignment_reads {arrow : String} (isTarget : target.IsTarget) (stored : Shows (unary outermost) target ts)
    (shown : Shows expression value us) (ended : LineEnd rest left) :
    (assignment l : Reader _) finish (ts ++ ⟨.assign, arrow, a⟩ :: (us ++ rest)) =
      .ok (.assign target value l, left) := by
  refine bind_ok (stored.read_target isTarget (.mark (by simp) arrow a _)) (bind_ok (expectKind_cons _ _ arrow a) ?_)
  exact bind_ok (shown.read_expression ended.done) (bind_ok ended.reads rfl)

theorem output_reads {items : List Expr} (shown : Separated (Shows expression) items ts) (ended : LineEnd rest left) :
    (output l : Reader _) finish (ts ++ rest) = .ok (.output items l, left) :=
  bind_ok (shown.read_expressions ended.done (ended.not_sort fun _ _ => rfl)) (bind_ok ended.reads rfl)

theorem input_reads (isTarget : target.IsTarget) (stored : Shows (unary outermost) target ts)
    (ended : LineEnd rest left) : (input l : Reader _) finish (ts ++ rest) = .ok (.input target l, left) :=
  bind_ok (stored.read_target isTarget ended.done) (bind_ok ended.reads rfl)

theorem arguments_reads {args : List Expr} {opening closing : String} (shown : Separated (Shows expression) args ts) :
    (arguments outermost : Reader _) finish (⟨.leftParen, opening, a⟩ :: (ts ++ ⟨.rightParen, closing, b⟩ :: rest)) =
      .ok (args, rest) := by
  have some : (ts ++ ⟨.rightParen, closing, b⟩ :: rest).head?.any (isKind .rightParen) = false := by
    obtain ⟨t, us, rfl, other⟩ := shown.opens
    simp [isKind, other]
  refine bind_ok (expectKind_cons _ _ opening a) (bind_ok (accept_of_not some) ?_)
  refine bind_ok (shown.read_expressions (.mark (by simp) closing b rest) rfl) ?_
  exact bind_ok (expectKind_cons _ _ closing b) rfl

theorem procedureCall_reads {args : List Expr} (name : String)
    (enclosed : Enclosed (Separated (Shows expression)) args ts) (ended : LineEnd rest left) :
    (procedureCall l : Reader _) finish (⟨.identifier, name, a⟩ :: (ts ++ rest)) = .ok (.call name args l, left) := by
  have closing (args : List Expr) : (do endOfStatement; pure (.call name args l) : Reader Stmt) finish rest =
      .ok (.call name args l, left) := bind_ok ended.reads rfl
  refine bind_ok (expectIdentifier_cons name a) ?_
  cases enclosed with
  | absent =>
    have absent : rest.head?.any (isKind .leftParen) = false := ended.not_sort fun _ _ => rfl
    rw [List.nil_append, bind_of_ok (check_eq _), absent]
    exact bind_ok rfl (closing [])
  | none => exact bind_ok (check_eq _) (bind_ok rfl (closing []))
  | some opening closing' l r shown =>
    simp only [List.cons_append, List.append_assoc, List.nil_append]
    exact bind_ok (check_eq _) (bind_ok (arguments_reads shown) (closing args))

theorem giveBack_reads_none (ended : LineEnd rest left) :
    (giveBack l : Reader _) finish rest = .ok (.giveBack none l, left) := by
  cases ended with
  | newline text l =>
    have ended := LineEnd.newline text l left
    exact bind_ok rfl (bind_ok rfl (bind_ok rfl (bind_ok ended.reads rfl)))
  | finished => rfl

theorem giveBack_reads_some (shown : Shows expression value ts) (ended : LineEnd rest left) :
    (giveBack l : Reader _) finish (ts ++ rest) = .ok (.giveBack (some value) l, left) := by
  have read : (some <$> expression : Reader _) finish (ts ++ rest) = .ok (some value, rest) :=
    map_ok some (shown.read_expression ended.done)
  obtain ⟨t, us, rfl, -, other⟩ := shown.opens
  have given : isKind .newline t = false := by simp [isKind, other]
  refine bind_ok rfl ?_
  rw [bind_of_ok (check_eq _), List.cons_append, List.head?_cons, Option.any_some, given]
  exact bind_ok read (bind_ok ended.reads rfl)

theorem fileMode_reads (mode : FileMode) (l : Location) :
    (fileMode : Reader _) finish (⟨.keyword, mode.keyword, l⟩ :: rest) = .ok (mode, rest) := by
  cases mode <;> rfl

theorem openFile_reads (mode : FileMode) (shown : Shows expression file ts) (ended : LineEnd rest left) :
    (openFile l : Reader _) finish (ts ++ ⟨.keyword, "FOR", a⟩ :: ⟨.keyword, mode.keyword, b⟩ :: rest) =
      .ok (.openFile file mode l, left) := by
  refine bind_ok (shown.read_expression (.word (by simp) a _)) (bind_ok (expectKeyword_of _ rfl) ?_)
  exact bind_ok (fileMode_reads mode b) (bind_ok ended.reads rfl)

theorem readFile_reads {comma : String} (shown : Shows expression file ts) (isTarget : target.IsTarget)
    (stored : Shows (unary outermost) target us) (ended : LineEnd rest left) :
    (readFile l : Reader _) finish (ts ++ ⟨.comma, comma, a⟩ :: (us ++ rest)) =
      .ok (.readFile file target l, left) := by
  refine bind_ok (shown.read_expression (.mark (by simp) comma a _)) (bind_ok (expectKind_cons _ _ comma a) ?_)
  exact bind_ok (stored.read_target isTarget ended.done) (bind_ok ended.reads rfl)

theorem writeFile_reads {comma : String} (shown : Shows expression file ts) (written : Shows expression value us)
    (ended : LineEnd rest left) :
    (writeFile l : Reader _) finish (ts ++ ⟨.comma, comma, a⟩ :: (us ++ rest)) =
      .ok (.writeFile file value l, left) := by
  refine bind_ok (shown.read_expression (.mark (by simp) comma a _)) (bind_ok (expectKind_cons _ _ comma a) ?_)
  exact bind_ok (written.read_expression ended.done) (bind_ok ended.reads rfl)

theorem closeFile_reads (shown : Shows expression file ts) (ended : LineEnd rest left) :
    (closeFile l : Reader _) finish (ts ++ rest) = .ok (.closeFile file l, left) :=
  bind_ok (shown.read_expression ended.done) (bind_ok ended.reads rfl)

theorem free_reads (shown : Shows expression pointer ts) (ended : LineEnd rest left) :
    (free l : Reader _) finish (ts ++ rest) = .ok (.free pointer l, left) :=
  bind_ok (shown.read_expression ended.done) (bind_ok ended.reads rfl)

theorem declaration_reads {names : List String} {type : DataType} {colon : String}
    (named : Separated (fun name ns => ∃ b, ns = [⟨.identifier, name, b⟩]) names ts)
    (shown : Shows Reader.type type us) (ended : LineEnd rest left) :
    (declaration l : Reader _) finish (ts ++ ⟨.colon, colon, a⟩ :: (us ++ rest)) =
      .ok (names.map (.declare · type l), left) := by
  have items : Separated (fun name ns => ∀ rest, True → Yields finish True expectIdentifier (ns ++ rest) rest name)
      names ts := by
    refine named.mono ?_
    rintro name _ ⟨b, rfl⟩ rest -
    exact .of_ok (expectIdentifier_cons name b)
  have read (mid : List Token) : Yields finish (∀ name ∈ names, True) (commaList expectIdentifier)
      (ts ++ ⟨.colon, colon, a⟩ :: mid) (⟨.colon, colon, a⟩ :: mid) names :=
    commaList_yields (fun _ => True) (fun _ _ _ => trivial) items trivial rfl
  refine bind_ok ((read _).reads fun _ _ => trivial) (bind_ok (expectKind_cons _ _ colon a) ?_)
  exact bind_ok shown.read_type (bind_ok ended.reads rfl)

/-- A keyword is taken, and what it starts follows. -/
theorem statement_word (word : String) (l : Location) :
    statement level inner finish (⟨.keyword, word, l⟩ :: ts) = afterKeyword level inner word l finish ts := rfl

theorem statement_assignment (starts : t.kind = .identifier ∨ t.isOperator "*" = true) :
    statement level inner finish (t :: ts) =
      (List.singleton <$> assignment t.location : Reader _) finish (t :: ts) := by
  unfold statement
  rw [bind_of_ok peek_cons]
  have other : t.kind ≠ .keyword := by
    rcases starts with name | symbol
    · simp [name]
    · intro word
      simp [Token.isOperator, word] at symbol
  have assigns : (t.kind = .identifier || t.isOperator "*") = true := by simpa using starts
  simp only [other, assigns, if_true, if_false]

/-- A statement of one line is read back at every level. -/
theorem Stmt.Spelled.read {s : Stmt} (h : s.Spelled ts) (ended : LineEnd rest left) :
    statement level inner finish (ts ++ rest) = .ok ([s], left) := by
  cases h with
  | constant name l a equals shown =>
    simp only [List.cons_append]
    exact map_ok List.singleton (constant_reads name equals shown ended)
  | assign arrow a isTarget stored starts shown =>
    simp only [List.cons_append, List.append_assoc]
    rw [statement_assignment starts]
    exact map_ok List.singleton (assignment_reads isTarget stored shown ended)
  | output l shown => exact map_ok List.singleton (output_reads shown ended)
  | input l isTarget stored => exact map_ok List.singleton (input_reads isTarget stored ended)
  | call name l a enclosed => exact map_ok List.singleton (procedureCall_reads name enclosed ended)
  | giveBack l given =>
    rcases given with ⟨rfl, rfl⟩ | ⟨value, rfl, shown⟩
    · exact map_ok List.singleton (giveBack_reads_none ended)
    · exact map_ok List.singleton (giveBack_reads_some shown ended)
  | openFile mode l a b shown =>
    simp only [List.cons_append, List.append_assoc, List.nil_append]
    exact map_ok List.singleton (openFile_reads mode shown ended)
  | readFile comma l a shown isTarget stored =>
    simp only [List.cons_append, List.append_assoc]
    exact map_ok List.singleton (readFile_reads shown isTarget stored ended)
  | writeFile comma l a shown written =>
    simp only [List.cons_append, List.append_assoc]
    exact map_ok List.singleton (writeFile_reads shown written ended)
  | closeFile l shown => exact map_ok List.singleton (closeFile_reads shown ended)
  | free l shown => exact map_ok List.singleton (free_reads shown ended)

end Statements

section Parameters

variable {params ps : List Param} {p : Param}

theorem passMode_stated (before mode : PassMode) (l : Location) :
    (passMode before : Reader _) finish (⟨.keyword, mode.keyword, l⟩ :: ts) = .ok (mode, ts) := by
  cases mode <;> rfl

theorem passMode_unstated (before : PassMode) (name : String) (l : Location) :
    (passMode before : Reader _) finish (⟨.identifier, name, l⟩ :: ts) =
      .ok (before, ⟨.identifier, name, l⟩ :: ts) := rfl

/-- The mode of a parameter that does not state one. -/
def modeBehind (params : List Param) : PassMode := params.getLast?.map (·.mode) |>.getD .byValue

theorem modeBehind_append (params : List Param) (p : Param) : modeBehind (params ++ [p]) = p.mode := by
  simp [modeBehind]

theorem parameter_reads (spelled : p.Spelled (modeBehind params) ts) (fresh : p.name ∉ params.map (·.name)) :
    (parameter params : Reader _) finish (ts ++ rest) = .ok (params ++ [p], rest) := by
  have other : params.any (·.name == p.name) = false := by
    simpa using fresh
  cases spelled with
  | stated colon l a b shown =>
    refine bind_ok (passMode_stated _ p.mode l) (bind_ok (expectIdentifier_cons _ a) ?_)
    refine bind_ok (expectKind_cons _ _ colon b) (bind_ok shown.read_type ?_)
    rw [other]
    rfl
  | unstated colon a b same shown =>
    refine bind_ok (passMode_unstated _ p.name a) (bind_ok (expectIdentifier_cons _ a) ?_)
    refine bind_ok (expectKind_cons _ _ colon b) (bind_ok shown.read_type ?_)
    have stated : (⟨p.name, p.type, modeBehind params⟩ : Param) = p := by rw [← same]
    rw [other, ← stated]
    rfl

theorem moreParameters_of_not (n : Nat) (params : List Param) (done : ts.head?.any (isKind .comma) = false) :
    (moreParameters n params : Reader _) finish ts = .ok (params, ts) := by
  cases n with
  | zero => rfl
  | succ n => exact bind_ok (accept_of_not done) rfl

theorem fresh_of_nodup (distinct : ((params ++ p :: ps).map (·.name)).Nodup) : p.name ∉ params.map (·.name) := by
  rw [List.map_append, List.nodup_append] at distinct
  exact fun mem => distinct.2.2 _ mem _ List.mem_cons_self rfl

/-- Each parameter is read after the ones before it, whose last mode it may take over. -/
theorem moreParameters_reads {before : PassMode} (spelled : Params before ps us) (behind : modeBehind params = before)
    (distinct : ((params ++ ps).map (·.name)).Nodup) (done : rest.head?.any (isKind .comma) = false)
    (comma : String) (l : Location) {n : Nat} (enough : count us < n) :
    (moreParameters n params : Reader _) finish (⟨.comma, comma, l⟩ :: (us ++ rest)) = .ok (params ++ ps, rest) := by
  induction spelled generalizing params comma l n with
  | one spelled =>
    obtain ⟨n, rfl⟩ := Nat.exists_eq_add_one.2 (Nat.zero_lt_of_lt enough)
    subst behind
    refine bind_ok (accept_of (isKind_mk .comma comma l)) ?_
    exact bind_ok (parameter_reads spelled (fresh_of_nodup distinct)) (moreParameters_of_not n _ done)
  | @more before p ps ts us comma' l' spelled _ ih =>
    obtain ⟨n, rfl⟩ := Nat.exists_eq_add_one.2 (Nat.zero_lt_of_lt enough)
    subst behind
    rw [count_append, count_cons rfl] at enough
    simp only [List.append_assoc, List.cons_append]
    refine bind_ok (accept_of (isKind_mk .comma comma l)) ?_
    refine bind_ok (parameter_reads spelled (fresh_of_nodup distinct)) ?_
    have split : params ++ p :: ps = params ++ [p] ++ ps := List.append_cons params p ps
    rw [split] at distinct ⊢
    have enough : count us < n := by omega
    exact ih (modeBehind_append params p) distinct comma' l' enough

theorem Param.Spelled.opens {before : PassMode} (h : p.Spelled before ts) :
    ∃ t us, ts = t :: us ∧ t.kind ≠ .rightParen := by
  cases h <;> exact ⟨_, _, rfl, nofun⟩

theorem Params.opens {before : PassMode} (h : Params before ps ts) : ∃ t us, ts = t :: us ∧ t.kind ≠ .rightParen := by
  cases h with
  | one spelled => exact spelled.opens
  | more comma l spelled =>
    obtain ⟨t, us, rfl, other⟩ := spelled.opens
    exact ⟨t, _, rfl, other⟩

theorem parameterList_reads (spelled : Params .byValue ps ts) (distinct : (ps.map (·.name)).Nodup)
    (done : rest.head?.any (isKind .comma) = false) :
    (parameterList : Reader _) finish (ts ++ rest) = .ok (ps, rest) := by
  cases spelled with
  | one spelled =>
    exact bind_ok (parameter_reads spelled List.not_mem_nil) (bind_ok rfl (moreParameters_of_not _ _ done))
  | @more _ p ps ts us comma l spelled others =>
    have enough : count us < count (⟨.comma, comma, l⟩ :: (us ++ rest)) := by
      rw [count_cons rfl, count_append]
      omega
    simp only [List.append_assoc, List.cons_append]
    refine bind_ok (parameter_reads spelled List.not_mem_nil) (bind_ok rfl ?_)
    exact moreParameters_reads others rfl distinct done comma l enough

theorem parameters_reads {opening closing : String} (spelled : Params .byValue ps ts)
    (distinct : (ps.map (·.name)).Nodup) :
    (parameters : Reader _) finish (⟨.leftParen, opening, a⟩ :: (ts ++ ⟨.rightParen, closing, b⟩ :: rest)) =
      .ok (ps, rest) := by
  have some : (ts ++ ⟨.rightParen, closing, b⟩ :: rest).head?.any (isKind .rightParen) = false := by
    obtain ⟨t, us, rfl, other⟩ := spelled.opens
    simp [isKind, other]
  refine bind_ok (expectKind_cons _ _ opening a) (bind_ok (accept_of_not some) ?_)
  exact bind_ok (parameterList_reads spelled distinct rfl) (bind_ok (expectKind_cons _ _ closing b) rfl)

end Parameters

section Labels

variable {v : Literal} {label : CaseLabel}

theorem labelLiteral_reads (h : v.Labels l ts) : (labelLiteral : Reader _) finish (ts ++ rest) = .ok (v, rest) := by
  cases h with
  | plain l notNull spelled => cases spelled <;> first | rfl | contradiction
  | negated n text sign l => rfl

/-- A label starts here. -/
structure AtLabel (l : Location) (ts : List Token) : Prop where
  starts : startsLabel ts = true
  unskipped : ts.dropWhile (isKind .newline) = ts
  placed : ∀ finish, (place : Reader _) finish ts = .ok (l, ts)
  notEnd : ts.head?.any (·.isKeyword "ENDCASE") = false
  notOther : ts.head?.any (·.isKeyword "OTHERWISE") = false

theorem Literal.Labels.atLabel (h : v.Labels l ts) (rest : List Token) : AtLabel l (ts ++ rest) := by
  cases h with
  | plain l notNull spelled =>
    cases spelled <;> first | exact ⟨rfl, rfl, fun _ => rfl, rfl, rfl⟩ | contradiction
  | negated n text sign l => exact ⟨rfl, rfl, fun _ => rfl, rfl, rfl⟩

theorem CaseLabel.Spelled.atLabel (h : label.Spelled l ts) (rest : List Token) : AtLabel l (ts ++ rest) := by
  cases h with
  | value labels => exact labels.atLabel rest
  | range middle low high =>
    rw [List.append_assoc]
    exact low.atLabel _

theorem caseLabel_reads {colon : String} (h : label.Spelled l ts) :
    (caseLabel : Reader _) finish (ts ++ ⟨.colon, colon, a⟩ :: rest) = .ok (label, ⟨.colon, colon, a⟩ :: rest) := by
  cases h with
  | value labels => exact bind_ok (labelLiteral_reads labels) (bind_ok (accept_cons_of_not rfl) rfl)
  | range middle low high =>
    rw [List.append_assoc]
    exact bind_ok (labelLiteral_reads low) (bind_ok (accept_of rfl) (bind_ok (labelLiteral_reads high) rfl))

end Labels

end Pseudocode
