import Pseudocode.Proofs.Grammar.Statements

/-!
Blocks are read back. Statements start with tokens that end no block and start no label, so every block ends where
its own closing word stands, and the body of a CASE branch at the next label, OTHERWISE or ENDCASE. From the lines of
a program follows the program (`Program.Written.read`).
-/

namespace Pseudocode

open Reader

variable {finish l a b c : Location} {ts us vs cs left rest : List Token} {t : Token} {body : List Stmt}
  {level : Reader.Level} {m n : Nat}

/-- The words that statements start with. -/
def startWords : List String :=
  ["DECLARE", "CONSTANT", "PROCEDURE", "FUNCTION", "OUTPUT", "INPUT", "IF", "WHILE", "REPEAT", "FOR", "CASE", "CALL",
   "RETURN", "OPENFILE", "READFILE", "WRITEFILE", "CLOSEFILE", "FREE"]

/-- The tokens that statements start with. -/
def Token.Starts (t : Token) : Prop :=
  t.kind = .identifier ∨ t.isOperator "*" = true ∨ t.kind = .keyword ∧ t.text ∈ startWords

namespace Token.Starts

theorem word (word : String) (start : word ∈ startWords) (l : Location) : Starts ⟨.keyword, word, l⟩ :=
  .inr (.inr ⟨rfl, start⟩)

theorem kind (h : t.Starts) : t.kind = .identifier ∨ t.kind = .operator ∨ t.kind = .keyword := by
  rcases h with name | symbol | ⟨word, -⟩
  · exact .inl name
  · simp only [isOperator, Bool.and_eq_true, decide_eq_true_eq] at symbol
    exact .inr (.inl symbol.1)
  · exact .inr (.inr word)

theorem not_newline (h : t.Starts) : isKind .newline t = false := by
  rcases h.kind with same | same | same <;> simp [isKind, same]

theorem not_keyword (h : t.Starts) {word : String} (other : word ∉ startWords) : t.isKeyword word = false := by
  rcases h with name | symbol | ⟨-, start⟩
  · simp [isKeyword, name]
  · simp only [isOperator, Bool.and_eq_true, decide_eq_true_eq] at symbol
    simp [isKeyword, symbol.1]
  · have differs : t.text ≠ word := fun same => other (same ▸ start)
    simp [isKeyword, differs]

theorem not_label (h : t.Starts) : startsLabel (t :: rest) = false := by
  have sign : t.isOperator "-" = false := by
    rcases h with name | symbol | ⟨word, -⟩
    · simp [isOperator, name]
    · simp only [isOperator, Bool.and_eq_true, decide_eq_true_eq, beq_iff_eq] at symbol
      simp [isOperator, symbol.2]
    · simp [isOperator, word]
  have true : t.isKeyword "TRUE" = Bool.false := h.not_keyword (by decide)
  have false : t.isKeyword "FALSE" = Bool.false := h.not_keyword (by decide)
  rcases h.kind with same | same | same <;> simp [startsLabel, isNumber, same, sign, true, false]

end Token.Starts

theorem Stmt.Spelled.starts {s : Stmt} (h : s.Spelled ts) : ∃ t us, ts = t :: us ∧ t.Starts := by
  have word {ts : List Token} (word : String) (start : word ∈ startWords) (l : Location) :
      ∃ t us, (⟨.keyword, word, l⟩ :: ts : List Token) = t :: us ∧ t.Starts := ⟨_, _, rfl, .word word start l⟩
  cases h with
  | assign arrow a isTarget stored starts => exact ⟨_, _, rfl, starts.elim .inl fun symbol => .inr (.inl symbol)⟩
  | _ => exact word _ (by decide) _

theorem Line.starts {found : List Stmt} (h : Line level found ts) : ∃ t us, ts = t :: us ∧ t.Starts := by
  cases h with
  | one spelled => exact spelled.starts
  | @define d =>
    have start : d.opening ∈ startWords := by
      unfold Definition.opening
      split <;> decide
    exact ⟨_, _, rfl, .word _ start _⟩
  | _ => exact ⟨_, _, rfl, .word _ (by decide) _⟩

section Loops

variable {stop : List Token → Bool} {one : Reader (List Stmt)} {done found : List Stmt}

/-- A line is empty. -/
abbrev isBlank : Token → Bool := isKind .newline

theorem dropWhile_blank {gap : List Token} (blank : Blank gap) (rest : List Token) :
    (gap ++ rest).dropWhile isBlank = rest.dropWhile isBlank := by
  refine List.dropWhile_append_of_pos fun t mem => ?_
  simp [isKind, blank t mem]

theorem skipNewlines_eq (finish : Location) (ts : List Token) :
    (skipNewlines : Reader _) finish ts = .ok ((), ts.dropWhile isBlank) := rfl

theorem dropWhile_of_not_blank (other : isBlank t = false) (rest : List Token) :
    (t :: rest).dropWhile isBlank = t :: rest :=
  List.dropWhile_cons_of_neg (by simp [other])

/-- Empty lines before the statements do not matter. -/
theorem statementsUntil_skip (same : ts.dropWhile isBlank = us.dropWhile isBlank) :
    statementsUntil stop one n done finish ts = statementsUntil stop one n done finish us := by
  cases n <;>
    rw [statementsUntil, bind_of_ok (skipNewlines_eq finish ts), same, bind_of_ok (skipNewlines_eq finish us)]

/-- The statements from here on, behind those that are done. -/
def resume (stop : List Token → Bool) (level : Reader.Level) (n : Nat) (done : List Stmt) (finish : Location)
    (ts : List Token) : Except SyntaxError (List Stmt × List Token) :=
  statementsUntil stop (statement level (blocks n)) (count ts) done finish ts

theorem resume_skip (same : ts.dropWhile isBlank = us.dropWhile isBlank) :
    resume stop level n done finish ts = resume stop level n done finish us := by
  have sameCount : count ts = count us := by rw [← count_dropWhile ts, same, count_dropWhile us]
  rw [resume, resume, sameCount, statementsUntil_skip same]

theorem resume_line (starts : ∃ t us, ts = t :: us ∧ t.Starts) (goesOn : ∀ t us, t.Starts → stop (t :: us) = false)
    (last : stop [] = true) (read : statement level (blocks n) finish (ts ++ rest) = .ok (found, left)) :
    resume stop level n done finish (ts ++ rest) = resume stop level n (done ++ found) finish left := by
  have takes := statement_takes level n
  obtain ⟨t, us, rfl, starts⟩ := starts
  have unskipped := dropWhile_of_not_blank starts.not_newline (us ++ rest)
  rw [← List.cons_append] at unskipped
  have fewer : count left < count (t :: us ++ rest) := takes.count_lt (unskipped.symm ▸ read)
  obtain ⟨k, enough⟩ := Nat.exists_eq_add_one.2 (Nat.zero_lt_of_lt fewer)
  rw [resume, enough, statementsUntil_of_ok (unskipped.symm ▸ goesOn t _ starts) (unskipped.symm ▸ read)]
  exact statementsUntil_settled takes last (by omega) (Nat.le_refl _)

theorem resume_stop (unskipped : ts.dropWhile isBlank = ts) (stops : stop ts = true) :
    resume stop level n done finish ts = .ok (done, ts) := by
  rw [resume, statementsUntil_of_stop (unskipped.symm ▸ stops), unskipped]

/-- A body is read, whatever comes before and after it. -/
def BodyReads (level : Reader.Level) (n : Nat) (body : List Stmt) (us : List Token) : Prop :=
  ∀ stop done finish rest, (∀ t us, t.Starts → stop (t :: us) = false) → stop [] = true →
    resume stop level n done finish (us ++ rest) = resume stop level n (done ++ body) finish rest

def endsBlock (closing : List String) : List Token → Bool
  | [] => true
  | t :: _ => closing.any t.isKeyword

def endsBranch (ts : List Token) : Bool :=
  match ts with
  | [] => true
  | t :: _ => t.isKeyword "ENDCASE" || t.isKeyword "OTHERWISE" || startsLabel ts

/-- The body of a CASE branch ends here. -/
structure BranchEnd (rest : List Token) : Prop where
  unskipped : rest.dropWhile isBlank = rest
  stops : endsBranch rest = true

/-- A body is read as a block with `m` levels left, up to a closing word, and as the body of a CASE branch. -/
structure BlockReads (m : Nat) (body : List Stmt) (us : List Token) : Prop where
  block : ∀ {closing t ts rest finish}, closing.any t.isKeyword = true → (∀ word ∈ closing, word ∉ startWords) →
    ts.dropWhile isBlank = (us ++ t :: rest).dropWhile isBlank →
      (blocks m).block closing finish ts = .ok (body, t :: rest)
  branch : ∀ {finish rest}, BranchEnd rest → (blocks m).branch finish (us ++ rest) = .ok (body, rest)

theorem not_blank_of_closes {closing : List String} (closes : closing.any t.isKeyword = true) :
    isBlank t = false := by
  obtain ⟨word, -, here⟩ := List.any_eq_true.1 closes
  simp only [Token.isKeyword, Bool.and_eq_true, decide_eq_true_eq] at here
  simp [isKind, here.1]

theorem BodyReads.block (h : BodyReads .inside n body us) : BlockReads (n + 1) body us := by
  constructor
  · intro closing t ts rest finish closes others same
    have unskipped := dropWhile_of_not_blank (not_blank_of_closes closes) rest
    have goesOn : ∀ u us, u.Starts → endsBlock closing (u :: us) = false := by
      intro u us starts
      refine List.any_eq_false.2 fun word mem => ?_
      simp [starts.not_keyword (others word mem)]
    have read := (resume_skip same).trans (h (endsBlock closing) [] finish _ goesOn rfl)
    rw [resume_stop unskipped closes] at read
    exact bind_ok rfl (bind_ok read rfl)
  · intro finish rest ends
    have goesOn : ∀ t us, t.Starts → endsBranch (t :: us) = false := by
      intro t us starts
      simp [endsBranch, starts.not_keyword (by decide : "ENDCASE" ∉ startWords),
        starts.not_keyword (by decide : "OTHERWISE" ∉ startWords), starts.not_label]
    have read := h endsBranch [] finish rest goesOn rfl
    rw [resume_stop ends.unskipped ends.stops] at read
    exact bind_ok rfl read

end Loops

section Statements

variable {condition start stop subject : Expr} {counter text : String} {other : Option (List Stmt)}
  {branches : List (CaseBranch Stmt)} {os ds es ns gap ps rs : List Token}

theorem Token.eq_of_isKeyword {word : String} (h : t.isKeyword word = true) : t = ⟨.keyword, word, t.location⟩ := by
  simp only [isKeyword, Bool.and_eq_true, decide_eq_true_eq, beq_iff_eq] at h
  obtain ⟨kind, text, l⟩ := t
  obtain ⟨rfl, rfl⟩ := h
  rfl

theorem discard_ok {α : Type} {x : Reader α} {a : α} (ran : x finish ts = .ok (a, rest)) :
    (discard x) finish ts = .ok ((), rest) :=
  map_ok (Function.const α ()) ran

/-- Behind empty lines stands a statement, or what follows all of them. -/
theorem Lines.opens {level : Reader.Level} {body : List Stmt} {us : List Token} (h : Lines level body us)
    (some : isBlank t = false) (rest : List Token) :
    ∃ u tail, (us ++ t :: rest).dropWhile isBlank = u :: tail ∧ (u = t ∨ u.Starts) :=
  match h with
  | .done => ⟨t, rest, dropWhile_of_not_blank some rest, .inl rfl⟩
  | .blank text l others => by
    obtain ⟨u, tail, same, first⟩ := others.opens some rest
    refine ⟨u, tail, ?_, first⟩
    rw [List.cons_append, List.dropWhile_cons_of_pos (isKind_mk .newline text l), same]
  | .line text l first others => by
    obtain ⟨u, tail, rfl, starts⟩ := first.starts
    exact ⟨u, _, dropWhile_of_not_blank starts.not_newline _, .inr starts⟩

/-- How a branch of an IF statement that may be left out is read. -/
inductive ElseReads (m : Nat) : Option (List Stmt) → List Token → Prop
  | absent : ElseReads m none []
  | present {body : List Stmt} {us : List Token} (l : Location) :
    BlockReads m body us → ElseReads m (some body) (⟨.keyword, "ELSE", l⟩ :: us)

/-- Behind the first block of an IF statement stands ELSE or ENDIF. -/
theorem ElseReads.closes (h : ElseReads m other vs) (a : Location) (rest : List Token) :
    ∃ t tail, vs ++ ⟨.keyword, "ENDIF", a⟩ :: rest = t :: tail ∧ ["ELSE", "ENDIF"].any t.isKeyword = true ∧
      t.isKeyword "THEN" = false := by
  cases h with
  | absent | present => exact ⟨_, _, rfl, rfl, rfl⟩

/-- The blocks of an IF statement, from the first of its lines on. -/
theorem branches_read (block : BlockReads m body us) (others : ElseReads m other vs) (ended : LineEnd rest left)
    (same : ts.dropWhile isBlank = (us ++ (vs ++ ⟨.keyword, "ENDIF", a⟩ :: rest)).dropWhile isBlank) :
    (do
      let thenBranch ← (blocks m).block ["ELSE", "ENDIF"]
      let elseBranch ← if ← acceptKeyword "ELSE" then some <$> (blocks m).block ["ENDIF"] else pure none
      expectKeyword "ENDIF" "to close IF"
      endOfStatement
      pure (.ifThen condition thenBranch elseBranch l) : Reader Stmt) finish ts =
      .ok (.ifThen condition body other l, left) := by
  obtain ⟨t, tail, next, closes, -⟩ := others.closes a rest
  rw [next] at same
  refine bind_ok (block.block closes (by decide) same) ?_
  rw [← next]
  cases others with
  | absent =>
    refine bind_ok (accept_cons_of_not rfl) (bind_ok rfl ?_)
    exact bind_ok (expectKeyword_of _ rfl) (bind_ok ended.reads rfl)
  | present l block =>
    refine bind_ok (accept_of rfl) (bind_ok (map_ok some (block.block rfl (by decide) rfl)) ?_)
    exact bind_ok (expectKeyword_of _ rfl) (bind_ok ended.reads rfl)

theorem conditional_reads (shown : Shows expression condition cs) (opening : Then os) (lines : Lines .inside body us)
    (block : BlockReads m body us) (others : ElseReads m other vs) (ended : LineEnd rest left) :
    conditional (blocks m) l finish (cs ++ (os ++ (us ++ (vs ++ ⟨.keyword, "ENDIF", a⟩ :: rest)))) =
      .ok (.ifThen condition body other l, left) := by
  cases opening with
  | @word gap b blank =>
    have done (mid : List Token) : Done (gap ++ ⟨.keyword, "THEN", b⟩ :: mid) := by
      cases gap with
      | nil => exact .word (by simp) b mid
      | cons t gap =>
        obtain ⟨kind, text, c⟩ := t
        obtain rfl : kind = .newline := blank _ List.mem_cons_self
        exact .mark (by simp) text c _
    have skipped (mid : List Token) : (skipNewlines : Reader _) finish (gap ++ ⟨.keyword, "THEN", b⟩ :: mid) =
        .ok ((), ⟨.keyword, "THEN", b⟩ :: mid) := by
      rw [skipNewlines_eq, dropWhile_blank blank]
      rfl
    simp only [List.append_assoc, List.cons_append, List.nil_append]
    refine bind_ok (shown.read_expression (done _)) (bind_ok (skipped _) (bind_ok (discard_ok (accept_of rfl)) ?_))
    exact branches_read block others ended rfl
  | line text b =>
    obtain ⟨t, tail, next, closes, notThen⟩ := others.closes a rest
    obtain ⟨u, tail', same, first⟩ := lines.opens (not_blank_of_closes closes) tail
    rw [← next] at same
    have skipped : (skipNewlines : Reader _) finish
        (⟨.newline, text, b⟩ :: (us ++ (vs ++ ⟨.keyword, "ENDIF", a⟩ :: rest))) = .ok ((), u :: tail') := by
      rw [skipNewlines_eq, List.dropWhile_cons_of_pos (isKind_mk .newline text b), same]
    have unlike : isBlank u = false ∧ u.isKeyword "THEN" = false := by
      rcases first with rfl | starts
      · exact ⟨not_blank_of_closes closes, notThen⟩
      · exact ⟨starts.not_newline, starts.not_keyword (by decide)⟩
    refine bind_ok (shown.read_expression (.mark (by simp) text b _)) (bind_ok skipped ?_)
    refine bind_ok (discard_ok (accept_cons_of_not unlike.2)) ?_
    exact branches_read block others ended ((dropWhile_of_not_blank unlike.1 tail').trans same.symm)

theorem whileLoop_reads (shown : Shows expression condition cs) (optional : Optional (·.isKeyword "DO" = true) ds)
    (block : BlockReads m body us) (ended : LineEnd rest left) :
    whileLoop (blocks m) l finish (cs ++ (ds ++ ⟨.newline, text, a⟩ :: (us ++ ⟨.keyword, "ENDWHILE", b⟩ :: rest))) =
      .ok (.whileDo condition body l, left) := by
  have closing : (do
      endOfStatement
      let body ← (blocks m).block ["ENDWHILE"]
      expectKeyword "ENDWHILE" "to close WHILE"
      endOfStatement
      pure (.whileDo condition body l) : Reader Stmt) finish
        (⟨.newline, text, a⟩ :: (us ++ ⟨.keyword, "ENDWHILE", b⟩ :: rest)) =
      .ok (.whileDo condition body l, left) := by
    refine bind_ok (LineEnd.newline text a _).reads (bind_ok (block.block rfl (by decide) rfl) ?_)
    exact bind_ok (expectKeyword_of _ rfl) (bind_ok ended.reads rfl)
  cases optional with
  | absent =>
    refine bind_ok (shown.read_expression (.mark (by simp) text a _)) ?_
    exact bind_ok (discard_ok (accept_cons_of_not rfl)) closing
  | present word =>
    rw [Token.eq_of_isKeyword word]
    exact bind_ok (shown.read_expression (.word (by simp) _ _)) (bind_ok (discard_ok (accept_of rfl)) closing)

theorem repeatLoop_reads (block : BlockReads m body us) (shown : Shows expression condition cs)
    (ended : LineEnd rest left) :
    repeatLoop (blocks m) l finish (⟨.newline, text, a⟩ :: (us ++ ⟨.keyword, "UNTIL", b⟩ :: (cs ++ rest))) =
      .ok (.repeatUntil body condition l, left) := by
  refine bind_ok (LineEnd.newline text a _).reads (bind_ok (block.block rfl (by decide) rfl) ?_)
  exact bind_ok (expectKeyword_of _ rfl) (bind_ok (shown.read_expression ended.done) (bind_ok ended.reads rfl))

theorem closingName_reads (named : Optional (fun t => t.kind = .identifier ∧ t.text = counter) ns)
    (ended : LineEnd rest left) : (closingName counter l : Reader _) finish (ns ++ rest) = .ok ((), rest) := by
  cases named with
  | absent =>
    cases ended with
    | newline text l | finished => rfl
  | @present t same =>
    refine bind_ok peek_cons ?_
    simp only [same.1, same.2, ne_eq, not_true_eq_false, if_true, if_false]
    rfl

theorem forLoop_reads {arrow : String} {step : Option Expr} {d e : Location} (first : Shows expression start ts)
    (last : Shows expression stop es) (stepped : Clause "STEP" step ds) (block : BlockReads m body us)
    (named : Optional (fun t => t.kind = .identifier ∧ t.text = counter) ns) (ended : LineEnd rest left) :
    forLoop (blocks m) l finish
        (⟨.identifier, counter, a⟩ :: ⟨.assign, arrow, b⟩ :: (ts ++ ⟨.keyword, "TO", c⟩ ::
          (es ++ (ds ++ ⟨.newline, text, d⟩ :: (us ++ ⟨.keyword, "NEXT", e⟩ :: (ns ++ rest)))))) =
      .ok (.forTo counter start stop step body l, left) := by
  have closing (step : Option Expr) : (do
      endOfStatement
      let body ← (blocks m).block ["NEXT"]
      let next ← place
      expectKeyword "NEXT" "to close FOR"
      closingName counter next
      endOfStatement
      pure (.forTo counter start stop step body l) : Reader Stmt) finish
        (⟨.newline, text, d⟩ :: (us ++ ⟨.keyword, "NEXT", e⟩ :: (ns ++ rest))) =
      .ok (.forTo counter start stop step body l, left) := by
    refine bind_ok (LineEnd.newline text d _).reads (bind_ok (block.block rfl (by decide) rfl) ?_)
    refine bind_ok place_cons (bind_ok (expectKeyword_of _ rfl) ?_)
    exact bind_ok (closingName_reads named ended) (bind_ok ended.reads rfl)
  refine bind_ok (expectIdentifier_cons counter a) (bind_ok (expectKind_cons _ _ arrow b) ?_)
  refine bind_ok (first.read_expression (.word (by simp) c _)) (bind_ok (expectKeyword_of _ rfl) ?_)
  cases stepped with
  | absent =>
    refine bind_ok (last.read_expression (.mark (by simp) text d _)) ?_
    exact bind_ok (accept_cons_of_not rfl) (bind_ok rfl (closing none))
  | present l shown =>
    simp only [List.cons_append]
    refine bind_ok (last.read_expression (.word (by simp) l _)) (bind_ok (accept_of rfl) ?_)
    exact bind_ok (map_ok some (shown.read_expression (.mark (by simp) text d _))) (closing _)

/-- Parameters before what does not start with a parenthesis. -/
theorem enclosed_reads {β : Type} {f : List Param → Reader β} {params : List Param} {b : β}
    (enclosed : Enclosed (Params .byValue) params ps) (distinct : (params.map (·.name)).Nodup)
    (closed : rest.head?.any (isKind .leftParen) = false) (next : f params finish rest = .ok (b, left)) :
    (check (isKind .leftParen) >>= fun opened => if opened then parameters >>= f else pure [] >>= f) finish
      (ps ++ rest) = .ok (b, left) := by
  cases enclosed with
  | absent =>
    rw [List.nil_append, bind_of_ok (check_eq _), closed]
    exact bind_ok rfl next
  | none => exact bind_ok (check_eq _) (bind_ok rfl next)
  | some opening closing l r spelled =>
    simp only [List.cons_append, List.append_assoc, List.nil_append]
    exact bind_ok (check_eq _) (bind_ok (parameters_reads spelled distinct) next)

theorem definition_reads {d : Definition Stmt} (enclosed : Enclosed (Params .byValue) d.params ps)
    (distinct : (d.params.map (·.name)).Nodup) (returns : Returns d.returns rs) (block : BlockReads m d.body us)
    (ended : LineEnd rest left) :
    definition (blocks m) d.isFunction d.location finish
        (⟨.identifier, d.name, a⟩ ::
          (ps ++ (rs ++ ⟨.newline, text, b⟩ :: (us ++ ⟨.keyword, d.closing, c⟩ :: rest)))) =
      .ok (.define d, left) := by
  obtain ⟨name, params, given, body, l⟩ := d
  refine bind_ok (expectIdentifier_cons name a) ?_
  cases returns with
  | none =>
    refine enclosed_reads enclosed distinct rfl ?_
    refine bind_ok rfl (bind_ok (LineEnd.newline text b _).reads ?_)
    refine bind_ok (block.block rfl (by decide : ∀ word ∈ ["ENDPROCEDURE"], word ∉ startWords) rfl) ?_
    exact bind_ok (expectKeyword_of _ rfl) (bind_ok ended.reads rfl)
  | some e shown =>
    refine enclosed_reads enclosed distinct rfl ?_
    refine bind_ok (expectKeyword_of _ rfl) ?_
    refine bind_ok (map_ok some shown.read_type) (bind_ok (LineEnd.newline text b _).reads ?_)
    refine bind_ok (block.block rfl (by decide : ∀ word ∈ ["ENDFUNCTION"], word ∉ startWords) rfl) ?_
    exact bind_ok (expectKeyword_of _ rfl) (bind_ok ended.reads rfl)

/-- The branches of a CASE statement, up to its end. -/
def BranchesRead (m : Nat) (branches : List (CaseBranch Stmt)) (other : Option (List Stmt)) (us : List Token) :
    Prop :=
  ∀ k done finish l rest, count (us ++ ⟨.keyword, "ENDCASE", l⟩ :: rest) ≤ k →
    caseBranches (blocks m) k done finish (us ++ ⟨.keyword, "ENDCASE", l⟩ :: rest) =
      .ok ((done ++ branches, other), ⟨.keyword, "ENDCASE", l⟩ :: rest)

theorem AtLabel.ends (h : AtLabel l ts) : BranchEnd ts := by
  refine ⟨h.unskipped, ?_⟩
  cases ts with
  | nil => rfl
  | cons t ts => simp [endsBranch, h.starts]

/-- What follows the body of a branch ends it. -/
theorem Branches.ends (h : Branches branches other us) (l : Location) (rest : List Token) :
    BranchEnd (us ++ ⟨.keyword, "ENDCASE", l⟩ :: rest) := by
  cases h with
  | done | otherwise => exact ⟨rfl, rfl⟩
  | branch colon a label =>
    simp only [List.append_assoc]
    exact (label.atLabel _).ends

theorem BranchesRead.done : BranchesRead m [] none [] := by
  intro k done finish l rest enough
  rw [List.nil_append, count_cons rfl] at enough
  obtain ⟨k, rfl⟩ := Nat.exists_eq_add_one.2 (Nat.zero_lt_of_lt enough)
  rw [List.append_nil]
  rfl

theorem Lines.not_colon (h : Lines level body us) (l : Location) (rest : List Token) :
    (us ++ ⟨.keyword, "ENDCASE", l⟩ :: rest).head?.any (isKind .colon) = false := by
  cases h with
  | done | blank => rfl
  | line text l first =>
    obtain ⟨t, us, rfl, starts⟩ := first.starts
    rcases starts.kind with same | same | same <;> simp [isKind, same]

theorem BranchesRead.otherwise (optional : Optional (·.kind = .colon) cs) (lines : Lines .inside body us)
    (block : BlockReads m body us) (l : Location) :
    BranchesRead m [] (some body) (⟨.keyword, "OTHERWISE", l⟩ :: cs ++ us) := by
  intro k done finish a rest enough
  rw [List.append_assoc, List.cons_append, count_cons rfl] at enough
  obtain ⟨k, rfl⟩ := Nat.exists_eq_add_one.2 (Nat.zero_lt_of_lt enough)
  rw [List.append_nil, List.append_assoc, List.cons_append]
  refine bind_ok rfl (bind_ok rfl (bind_ok rfl (bind_ok (accept_of rfl) ?_)))
  have colon : (discard (accept (isKind .colon)) : Reader _) finish (cs ++ (us ++ ⟨.keyword, "ENDCASE", a⟩ :: rest)) =
      .ok ((), us ++ ⟨.keyword, "ENDCASE", a⟩ :: rest) := by
    cases optional with
    | absent => exact discard_ok (accept_of_not (lines.not_colon a rest))
    | present kind => exact discard_ok (accept_of (by simp [isKind, kind]))
  refine bind_ok colon (bind_ok (block.branch ⟨rfl, rfl⟩) (bind_ok rfl (bind_ok rfl ?_)))
  rfl

theorem BranchesRead.branch {label : CaseLabel} {colon : String} (spelled : label.Spelled l ts)
    (block : BlockReads m body us) (following : Branches branches other vs)
    (others : BranchesRead m branches other vs) :
    BranchesRead m (⟨label, body, l⟩ :: branches) other (ts ++ ⟨.colon, colon, a⟩ :: us ++ vs) := by
  intro k done finish b rest enough
  simp only [List.append_assoc, List.cons_append] at enough ⊢
  -- The colon makes room for one round.
  rw [count_append, count_cons rfl, count_append] at enough
  obtain ⟨k, rfl⟩ : ∃ k', k = k' + 1 := Nat.exists_eq_add_one.2 (by omega)
  have fewer : count (vs ++ ⟨.keyword, "ENDCASE", b⟩ :: rest) ≤ k := by omega
  have start := spelled.atLabel (⟨.colon, colon, a⟩ :: (us ++ (vs ++ ⟨.keyword, "ENDCASE", b⟩ :: rest)))
  generalize here : ts ++ ⟨.colon, colon, a⟩ :: (us ++ (vs ++ ⟨.keyword, "ENDCASE", b⟩ :: rest)) = tokens at start ⊢
  have unended : (atEnd : Reader _) finish tokens = .ok (false, tokens) := by
    rw [← here]
    cases ts <;> rfl
  refine bind_ok (a := ()) (start.unskipped ▸ skipNewlines_eq finish tokens) ?_
  refine bind_ok (start.notEnd ▸ check_eq _) (bind_ok unended ?_)
  refine bind_ok (accept_of_not start.notOther) (bind_ok (start.placed finish) ?_)
  rw [← here]
  refine bind_ok (caseLabel_reads spelled) (bind_ok (expectKind_cons _ _ colon a) ?_)
  refine bind_ok (block.branch (following.ends b rest)) ?_
  rw [others k _ finish b rest fewer, List.append_assoc, List.singleton_append]

theorem caseBranches_skip {inner : Blocks Reader} {done : List (CaseBranch Stmt)}
    (same : ts.dropWhile isBlank = us.dropWhile isBlank) :
    caseBranches inner n done finish ts = caseBranches inner n done finish us := by
  cases n with
  | zero =>
    show (skipNewlines >>= _ : Reader _) finish ts = (skipNewlines >>= _ : Reader _) finish us
    rw [bind_of_ok (skipNewlines_eq finish ts), same, bind_of_ok (skipNewlines_eq finish us)]
  | succ n =>
    rw [caseBranches, bind_of_ok (skipNewlines_eq finish ts), same, bind_of_ok (skipNewlines_eq finish us)]

theorem caseOf_reads (shown : Shows expression subject cs) (blank : Blank gap)
    (others : BranchesRead m branches other us) (ended : LineEnd rest left) :
    caseOf (blocks m) l finish
        (⟨.keyword, "OF", a⟩ :: (cs ++ ⟨.newline, text, b⟩ :: (gap ++ (us ++ ⟨.keyword, "ENDCASE", c⟩ :: rest)))) =
      .ok (.caseOf subject branches other l, left) := by
  have enough : count (us ++ ⟨.keyword, "ENDCASE", c⟩ :: rest) ≤
      count (gap ++ (us ++ ⟨.keyword, "ENDCASE", c⟩ :: rest)) := by
    rw [count_append gap]
    omega
  refine bind_ok (expectKeyword_of _ rfl) (bind_ok (shown.read_expression (.mark (by simp) text b _)) ?_)
  have list : caseList (blocks m) finish (gap ++ (us ++ ⟨.keyword, "ENDCASE", c⟩ :: rest)) = _ :=
    bind_ok rfl ((caseBranches_skip (dropWhile_blank blank _)).trans (others _ [] finish c rest enough))
  refine bind_ok (LineEnd.newline text b _).reads (bind_ok list ?_)
  exact bind_ok (expectKeyword_of _ rfl) (bind_ok ended.reads rfl)

end Statements

theorem BlockReads.of_body (h : ∀ n, (∀ s ∈ body, s.depth ≤ n) → BodyReads .inside n body us)
    (fits : Stmt.blockDepth body ≤ m) : BlockReads m body us := by
  obtain ⟨some, within⟩ := Stmt.blockDepth_le.1 fits
  obtain ⟨n, rfl⟩ := Nat.exists_eq_add_one.2 some
  exact (h n fun s mem => Nat.le_of_lt_succ (within s mem)).block

theorem afterKeyword_definition (d : Definition Stmt) (inner : Blocks Reader) (l : Location) :
    afterKeyword .top inner d.opening l = List.singleton <$> definition inner d.isFunction l := by
  unfold Definition.opening
  cases d.isFunction <;> rfl

-- By induction on how the statements are written. Each level of blocks uses up one of the levels that are left,
-- so the depth of the statements says that there are enough.
mutual

/-- A line is read back with its end. -/
theorem Line.read {level : Reader.Level} {found : List Stmt} {ts : List Token} : Line level found ts →
    ∀ {n finish rest left}, (∀ s ∈ found, s.depth ≤ n) → LineEnd rest left →
      statement level (blocks n) finish (ts ++ rest) = .ok (found, left)
  | .one spelled, _, _, _, _, _, ended => spelled.read ended
  | .declare colon l a named shown, _, _, _, _, _, ended => by
    simp only [List.cons_append, List.append_assoc]
    exact declaration_reads named shown ended
  | @Line.define d _ _ _ text a b c enclosed distinct returns lines, n, _, _, _, fits, ended => by
    have depth : Stmt.blockDepth d.body ≤ n := fits _ List.mem_cons_self
    simp only [List.cons_append, List.append_assoc, List.nil_append]
    rw [statement_word, afterKeyword_definition]
    exact map_ok List.singleton (definition_reads enclosed distinct returns (.of_body lines.read depth) ended)
  | .ifThen l a shown opening lines others, n, _, _, _, fits, ended => by
    have depth := Nat.max_le.1 (fits _ List.mem_cons_self)
    simp only [List.cons_append, List.append_assoc, List.nil_append]
    exact map_ok List.singleton
      (conditional_reads shown opening lines (.of_body lines.read depth.1) (others.read depth.2) ended)
  | .whileDo text l a b shown optional lines, n, _, _, _, fits, ended => by
    have depth := fits _ List.mem_cons_self
    simp only [List.cons_append, List.append_assoc, List.nil_append]
    exact map_ok List.singleton (whileLoop_reads shown optional (.of_body lines.read depth) ended)
  | .repeatUntil text l a b lines shown, n, _, _, _, fits, ended => by
    have depth := fits _ List.mem_cons_self
    simp only [List.cons_append, List.append_assoc]
    exact map_ok List.singleton (repeatLoop_reads (.of_body lines.read depth) shown ended)
  | .forTo counter arrow text l a b c d e first last stepped lines named, n, _, _, _, fits, ended => by
    have depth := fits _ List.mem_cons_self
    simp only [List.cons_append, List.append_assoc]
    exact map_ok List.singleton (forLoop_reads first last stepped (.of_body lines.read depth) named ended)
  | .caseOf text l a b c shown blank branches, n, _, _, _, fits, ended => by
    have depth := Nat.max_le.1 (fits _ List.mem_cons_self)
    simp only [List.cons_append, List.append_assoc, List.nil_append]
    exact map_ok List.singleton (caseOf_reads shown blank (branches.read depth.1 depth.2) ended)

theorem Lines.read {level : Reader.Level} {body : List Stmt} {us : List Token} : Lines level body us →
    ∀ n, (∀ s ∈ body, s.depth ≤ n) → BodyReads level n body us
  | .done, n, _ => fun stop done finish rest _ _ => by rw [List.append_nil, List.nil_append]
  | .blank text l others, n, fits => fun stop done finish rest goesOn ends => by
    rw [List.cons_append, resume_skip (List.dropWhile_cons_of_pos (isKind_mk .newline text l))]
    exact others.read n fits stop done finish rest goesOn ends
  | .line text l first others, n, fits => fun stop done finish rest goesOn ends => by
    obtain ⟨here, later⟩ := List.forall_mem_append.1 fits
    rw [List.append_assoc, List.cons_append]
    rw [resume_line first.starts goesOn ends (first.read here (.newline text l (_ ++ rest)))]
    rw [others.read n later stop _ finish rest goesOn ends, List.append_assoc]

theorem Else.read {m : Nat} {other : Option (List Stmt)} {vs : List Token} : Else other vs →
    Stmt.otherDepth other ≤ m → ElseReads m other vs
  | .absent, _ => .absent
  | .present l lines, fits => .present l (.of_body lines.read fits)

theorem Branches.read {m : Nat} {branches : List (CaseBranch Stmt)} {other : Option (List Stmt)} {us : List Token} :
    Branches branches other us → Stmt.branchesDepth branches ≤ m → Stmt.otherDepth other ≤ m →
      BranchesRead m branches other us
  | .done, _, _ => .done
  | .otherwise l optional lines, _, fits => .otherwise optional lines (.of_body lines.read fits) l
  | .branch colon a label lines others, fits, last =>
    .branch label (.of_body lines.read (Nat.max_le.1 fits).1) others (others.read (Nat.max_le.1 fits).2 last)

end

/-- A program that is written line by line is read back, and nothing is left. -/
theorem Program.Written.read {p : Program} (h : p.Written ts) (fits : ∀ s ∈ p.statements, s.depth ≤ maxNesting)
    (finish : Location) : Reader.program finish ts = .ok (p, []) := by
  have goesOn : ∀ t us, t.Starts → (t :: us : List Token).isEmpty = false := fun _ _ _ => rfl
  have ended (done : List Stmt) : resume List.isEmpty .top maxNesting done finish [] = .ok (done, []) := rfl
  have all : resume List.isEmpty .top maxNesting [] finish ts = .ok (p.statements, []) := by
    cases h with
    | lines lines =>
      have read := lines.read maxNesting fits List.isEmpty [] finish [] goesOn rfl
      rwa [List.append_nil, ended] at read
    | @unended body last us ts lines line =>
      obtain ⟨before, here⟩ := List.forall_mem_append.1 fits
      have read : resume List.isEmpty .top maxNesting body finish (ts ++ []) = _ :=
        resume_line line.starts goesOn rfl (line.read here .finished)
      rw [List.append_nil, ended] at read
      rw [lines.read maxNesting before List.isEmpty [] finish _ goesOn rfl]
      exact read
  exact bind_ok rfl (bind_ok all rfl)

end Pseudocode
