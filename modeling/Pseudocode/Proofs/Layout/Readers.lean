import Pseudocode.Proofs.Layout.Parallel
import Pseudocode.Proofs.Reading.Simulation

/-!
Two programs side by side. Blocks are read alike from both inputs, so a program is read from the second input if
one is read from the first, with its trees at the places that correspond (`Program.ofTokens_follow`).
-/

namespace Pseudocode.Reader

variable {C : Parallel}

/-- Statements up to where both inputs stop. -/
theorem statementsUntil_follow {stop : List Token → Bool} {one : Reader (List Stmt)}
    (same : ∀ ts ts', C.Tokens ts ts' → stop ts' = stop ts) (first : C.accord.Statements 0 n one one) (k : Nat)
    {done : List Stmt} (before : ∀ s ∈ done, s.Fits C.accord.Inside n) :
    C.Follows .gap .line (Stmt.movedBlock C.node) (fun found => ∀ s ∈ found, s.Fits C.accord.Inside n)
      (statementsUntil stop one k done) (statementsUntil stop one k (Stmt.movedBlock C.node done)) := by
  induction k generalizing done with
  | zero => exact Parallel.Follows.skipNewlines.bind fun _ _ _ _ inputs => .ok done before inputs
  | succ k ih =>
    refine Parallel.Follows.skipNewlines.bind fun _ _ ts ts' inputs => ?_
    have stops := same ts ts' inputs
    show C.Results .line (Stmt.movedBlock C.node) _ ((if stop ts then _ else _ : Reader (List Stmt)) C.finish ts)
      ((if stop ts' then _ else _ : Reader (List Stmt)) (C.place C.finish) ts')
    rw [stops]
    split
    · exact .ok done before inputs
    · refine Parallel.Follows.bind first (fun found fits => ?_) ts ts' inputs
      have more := ih (List.forall_mem_append.2 ⟨before, fits⟩)
      rwa [Stmt.movedBlock_append] at more

/-- A block that is nested too deeply is refused before its empty lines are skipped. -/
theorem tooDeep_follow {α : Type} {g : α → α} {K : α → Prop} {Q : Spot} :
    C.Follows .gap Q g K (fail (.tooDeep .block)) (fail (.tooDeep .block)) := by
  intro ts ts' inputs
  cases inputs with
  | tight inputs => exact (Accord.Alike.fail _ : C.accord.Alike 0 .line Q g K _ _) ts ts' inputs
  | @blank n ts ts' line skips inputs =>
    have here : (fail (.tooDeep .block) : Reader α) C.finish ts = .error ⟨.tooDeep .block, C.next ts⟩ := by
      cases ts <;> rfl
    -- The first input has no empty line here, so the places differ.
    rw [here]
    exact .error (.skipped skips)

/-- The body of a branch ends at the same token. -/
theorem startsLabel_eq {ts ts' : List Token} (inputs : C.Tokens ts ts') :
    startsLabel ts' = startsLabel ts := by
  have heads {us us' : List Token} (later : C.Tokens us us') :
      us'.head?.any (·.isNumber) = us.head?.any (·.isNumber) := by cases later <;> rfl
  cases inputs with
  | nil => rfl
  | @cons t us us' _ later =>
    rw [startsLabel, startsLabel, heads later]
    rfl
  | @blank t n us us' line =>
    have minus : t.isOperator "-" = false := by simp [Token.isOperator, line]
    have minus' : (C.move t).isOperator "-" = false := minus
    rw [startsLabel, startsLabel, minus, minus', Bool.false_and, Bool.false_and]
    rfl

theorem blocks_follow (C : Parallel) (n : Nat) : C.accord.OnBlocks n (blocks n) (blocks n) := by
  induction n with
  | zero => exact ⟨fun _ _ => tooDeep_follow, fun _ => .fail _⟩
  | succ n ih =>
    have one : C.accord.Statements 0 n (statement .inside (blocks n)) (statement .inside (blocks n)) :=
      .statement (C.accord.onNested maxNesting) ih .inside
    refine ⟨fun _ closing => ?_, fun _ => ?_⟩
    · refine Parallel.Follows.counted fun k => Parallel.Follows.bind
        (statementsUntil_follow (fun ts ts' inputs => ?_) one k (List.forall_mem_nil _)) fun body fits => ?_
      · cases inputs <;> rfl
      · have done : C.accord.Block 0 .line (n + 1) (pure body) (pure (Stmt.movedBlock C.node body)) :=
          C.accord.given (.of_forall fits)
        exact Accord.Alike.atEnd.after fun _ => .ite (fun _ => .expectedThen _) fun _ => done
    · refine .weaken (C.accord.tight (C.accord.counted fun k => ?_)) fun _ => .of_forall
      refine statementsUntil_follow (fun ts ts' inputs => ?_) one k (List.forall_mem_nil _)
      rw [startsLabel_eq inputs]
      cases inputs <;> rfl

theorem program_follows (C : Parallel) : C.Follows .gap .line (Program.moved C.node) Any program program := by
  have one : C.accord.Statements 0 maxNesting (statement .top (blocks _)) (statement .top (blocks _)) :=
    .statement (C.accord.onNested maxNesting) (blocks_follow C maxNesting) .top
  refine Parallel.Follows.counted fun k => Parallel.Follows.bind
    (statementsUntil_follow (fun ts ts' inputs => ?_) one k (List.forall_mem_nil _))
    fun body _ _ _ rest => .ok (Program.mk body) trivial rest
  cases inputs <;> rfl

end Pseudocode.Reader

namespace Pseudocode

variable {C : Parallel}

/-- Tokens stand beside themselves at other places; comments are dropped. -/
theorem Parallel.Tokens.append {ts us us' : List Token} (sure : ∀ t ∈ ts, C.Sure t) (later : C.Tokens us us') :
    C.Tokens (ts.filter (·.kind != .comment) ++ us) ((ts.map C.move).filter (·.kind != .comment) ++ us') := by
  induction ts with
  | nil => exact later
  | cons t ts ih =>
    obtain ⟨first, others⟩ := List.forall_mem_cons.1 sure
    have kinds : ((C.move t).kind != .comment) = (t.kind != .comment) := rfl
    rw [List.map_cons, List.filter_cons, List.filter_cons, kinds]
    split
    · exact .cons first (ih others)
    · exact ih others

theorem Parallel.Tokens.all {ts : List Token} (sure : ∀ t ∈ ts, C.Sure t) :
    C.Tokens (ts.filter (·.kind != .comment)) ((ts.map C.move).filter (·.kind != .comment)) := by
  have tokens := append sure .nil
  rwa [List.append_nil, List.append_nil] at tokens

theorem Parallel.kind_of_mem_map {ts : List Token} {kind : TokenKind} (others : ∀ t ∈ ts, t.kind ≠ kind) :
    ∀ t ∈ ts.map C.move, t.kind ≠ kind := by
  intro t mem
  obtain ⟨u, inside, rfl⟩ := List.mem_map.1 mem
  exact others u inside

/-- The tokens before the end of input, without comments. -/
theorem TokenStream.ofTokens_ended {before : List Token} (others : ∀ t ∈ before, t.kind ≠ .endOfInput)
    (text : String) (finish : Location) :
    ofTokens (before ++ [⟨.endOfInput, text, finish⟩]) = ⟨before.filter (·.kind != .comment), finish⟩ := by
  have inside : ∀ t ∈ before.filter (·.kind != .comment), (t.kind != .endOfInput) = true := by
    intro t mem
    simpa using others t (List.mem_filter.1 mem).1
  simp only [ofTokens, List.filter_append]
  rw [List.takeWhile_append_of_pos inside, List.dropWhile_append_of_pos inside]
  exact congrArg (TokenStream.mk · finish) (List.append_nil _)

/-- Two lists of tokens that stand side by side are both a program, or both are none. -/
theorem Program.ofTokens_follow {before before' : List Token} (others : ∀ t ∈ before, t.kind ≠ .endOfInput)
    (others' : ∀ t ∈ before', t.kind ≠ .endOfInput) (text : String)
    (inputs : C.Tokens (before.filter (·.kind != .comment)) (before'.filter (·.kind != .comment))) :
    (∃ p, ofTokens (before ++ [⟨.endOfInput, text, C.finish⟩]) = .ok p ∧
        ofTokens (before' ++ [⟨.endOfInput, text, C.place C.finish⟩]) = .ok (p.moved C.node)) ∨
      ∃ e e', ofTokens (before ++ [⟨.endOfInput, text, C.finish⟩]) = .error e ∧
        ofTokens (before' ++ [⟨.endOfInput, text, C.place C.finish⟩]) = .error e' ∧ C.Errors e e' := by
  have results := Reader.program_follows C _ _ (.tight inputs)
  rw [ofTokens_eq, ofTokens_eq, TokenStream.ofTokens_ended others, TokenStream.ofTokens_ended others']
  show (∃ p, Prod.fst <$> Reader.program C.finish _ = _ ∧ Prod.fst <$> Reader.program (C.place C.finish) _ = _) ∨
    ∃ e e', Prod.fst <$> Reader.program C.finish _ = _ ∧ Prod.fst <$> Reader.program (C.place C.finish) _ = _ ∧ _
  generalize Reader.program C.finish _ = found, Reader.program (C.place C.finish) _ = found' at results
  cases results with
  | ok p _ _ => exact .inl ⟨p, rfl, rfl⟩
  | error same => exact .inr ⟨_, _, rfl, rfl, same⟩

end Pseudocode
