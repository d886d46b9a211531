import Pseudocode.Proofs.Grammar.Expressions
import Pseudocode.Proofs.Reading.Agreement
import Pseudocode.Proofs.Reading.Loops

/-!
What follows an expression or a type does not matter for reading it, unless it goes on with it (`Local`). So an
expression that is read from tokens of its own is read from the same tokens wherever they stand
(`expression_local`).
-/

namespace Pseudocode.Reader

variable {α β : Type} {E : List Token → Prop} {k m n : Nat} {r x : Reader α} {f : α → Reader β} {t : Token}
  {finish finish' : Location} {ts left rest : List Token} {a : α}

/-- Tokens that are put behind the others change nothing. If the reader took all the others, what is put behind
them must satisfy `E`. -/
structure Local (E : List Token → Prop) (k : Nat) (r : Reader α) : Prop where
  takes : Takes k r
  grows : ∀ {finish ts a left}, r finish ts = .ok (a, left) → ∀ finish' rest, (left = [] → E rest) →
    r finish' (ts ++ rest) = .ok (a, left ++ rest)

/-- The same where the current token is known. -/
structure LocalAt (t : Token) (E : List Token → Prop) (k : Nat) (r : Reader α) : Prop where
  takes : TakesAt t k r
  grows : ∀ {finish ts a left}, r finish (t :: ts) = .ok (a, left) → ∀ finish' rest, (left = [] → E rest) →
    r finish' (t :: ts ++ rest) = .ok (a, left ++ rest)

/-- Nothing may follow: the reader must have left some tokens. -/
def Never (_ : List Token) : Prop := False

theorem Takes.nil (h : Takes k x) (ran : x finish [] = .ok (a, left)) : k = 0 ∧ left = [] := by
  have none := h.length_le ran
  rw [List.length_nil] at none
  exact ⟨by omega, List.eq_nil_of_length_eq_zero (by omega)⟩

namespace Local

theorem mono {E' : List Token → Prop} (h : Local E k r) (less : m ≤ k) (narrower : ∀ rest, E' rest → E rest) :
    Local E' m r where
  takes := h.takes.mono less
  grows ran finish' rest ends := h.grows ran finish' rest fun none => narrower rest (ends none)

theorem lax (h : Local E k r) : Local E 0 r := h.mono (Nat.zero_le k) fun _ => id

theorem never (h : Local E k r) : Local Never k r := h.mono (Nat.le_refl k) nofun

theorem known (h : Local E k r) (t : Token) : LocalAt t E k r := ⟨h.takes.known t, h.grows⟩

theorem pure (a : α) : Local E 0 (pure a) := by
  refine ⟨.pure a, fun ran finish' rest _ => ?_⟩
  cases ran
  rfl

/-- A reader that always fails. -/
theorem of_fails (h : Fails r) : Local E k r := by
  refine ⟨h.takes k, @fun finish ts a left ran _ _ _ => ?_⟩
  obtain ⟨e, failed⟩ := h finish ts
  cases ran.symm.trans failed

theorem bind (first : Local E k x) (next : ∀ a, Local E (m - k) (f a)) : Local E m (x >>= f) := by
  refine ⟨first.takes.after fun a => (next a).takes, fun ran finish' rest ends => ?_⟩
  obtain ⟨a, mid, read, made⟩ := bind_eq_ok ran
  have follows : mid = [] → E rest := by
    rintro rfl
    exact ends ((next a).takes.nil made).2
  rw [bind_of_ok (first.grows read finish' rest follows)]
  exact (next a).grows made finish' rest ends

/-- A token must come after what was read first. -/
theorem before (first : Local Never k x) (next : ∀ a, Local E 1 (f a)) : Local E 1 (x >>= f) := by
  refine ⟨first.takes.after fun a => (next a).takes.mono (Nat.sub_le 1 k), ?_⟩
  intro finish ts b left ran finish' rest ends
  obtain ⟨a, mid, read, made⟩ := bind_eq_ok ran
  have follows : mid = [] → Never rest := by
    rintro rfl
    exact absurd ((next a).takes.nil made).1 Nat.one_ne_zero
  rw [bind_of_ok (first.grows read finish' rest follows)]
  exact (next a).grows made finish' rest ends

theorem ite {c : Prop} [Decidable c] {x y : Reader α} (first : Local E k x) (second : Local E k y) :
    Local E k (if c then x else y) := by
  split
  · exact first
  · exact second

theorem map {g : α → β} (h : Local E k x) : Local E k (g <$> x) := by
  rw [map_eq_pure_bind]
  refine h.bind fun a => ?_
  rw [Nat.sub_self]
  exact pure _

theorem peekThen {f : Option Token → Reader β} (none : Fails (f none))
    (some : ∀ t, LocalAt t E 1 (f (some t))) : Local E 1 (peek >>= f) := by
  refine ⟨.peekThen (none.takes 1) fun t => (some t).takes, @fun finish ts a left ran finish' rest ends => ?_⟩
  cases ts with
  | nil =>
    obtain ⟨e, failed⟩ := none finish []
    cases ran.symm.trans failed
  | cons t ts => exact (some t).grows ran finish' rest ends

theorem place : Local Never 0 place := by
  refine ⟨.place, @fun finish ts a left ran finish' rest ends => ?_⟩
  cases ts with
  | nil =>
    cases ran
    exact (ends rfl).elim
  | cons t ts =>
    cases ran
    rfl

theorem check {sort : Token → Bool} (edge : ∀ rest, E rest → rest.head?.any sort = false) :
    Local E 0 (check sort) := by
  refine ⟨.check sort, @fun finish ts a left ran finish' rest ends => ?_⟩
  cases ts with
  | nil =>
    cases ran
    rw [List.nil_append, check_eq, edge rest (ends rfl)]
    rfl
  | cons t ts =>
    cases ran
    rfl

/-- A token is taken, or something else is tried. If that may do without a token, none of the sort follows. -/
theorem acceptThen {sort : Token → Bool} {f : Bool → Reader β} (yes : Local E (k - 1) (f true))
    (no : Local E k (f false)) (edge : k = 0 → ∀ rest, E rest → rest.head?.any sort = false) :
    Local E k (accept sort >>= f) := by
  refine ⟨.acceptThen yes.takes no.takes, @fun finish ts b left ran finish' rest ends => ?_⟩
  cases ts with
  | nil =>
    rw [bind_of_ok (accept_of_not rfl)] at ran
    obtain ⟨lax, none⟩ := no.takes.nil ran
    rw [List.nil_append, bind_of_ok (accept_of_not (edge lax rest (ends none)))]
    exact no.grows ran finish' rest ends
  | cons t ts =>
    cases here : sort t with
    | true =>
      rw [bind_of_ok (accept_of here)] at ran
      rw [List.cons_append, bind_of_ok (accept_of here)]
      exact yes.grows ran finish' rest ends
    | false =>
      rw [bind_of_ok (accept_cons_of_not here)] at ran
      rw [List.cons_append, bind_of_ok (accept_cons_of_not here)]
      exact no.grows ran finish' rest ends

theorem accept (sort : Token → Bool) : Local Never 0 (accept sort) := by
  have h : Local Never 0 (Reader.accept sort >>= Pure.pure) := acceptThen (pure true) (pure false) nofun
  rwa [bind_pure] at h

theorem expectKind (kind : TokenKind) (what : String) : Local E 1 (expectKind kind what) :=
  acceptThen (pure ()) (of_fails (.expected _)) nofun

theorem expectKeyword (word context : String) : Local E 1 (expectKeyword word context) :=
  acceptThen (pure ()) (of_fails (.expected _)) nofun

end Local

namespace LocalAt

theorem advance {f : Unit → Reader β} (h : Local E (k - 1) (f ())) : LocalAt t E k (advance >>= f) where
  takes := .advance h.takes
  grows ran finish' rest ends := h.grows ran finish' rest ends

theorem ite {c : Prop} [Decidable c] {x y : Reader α} (first : LocalAt t E k x) (second : LocalAt t E k y) :
    LocalAt t E k (if c then x else y) := by
  split
  · exact first
  · exact second

end LocalAt

section Loops

/-- Where nothing but ends of lines is left, what follows is none of something else. -/
theorem line_of_count (none : count ts = 0) (here : ts.head? = some t) : t.kind = .newline := by
  obtain ⟨us, rfl⟩ := List.head?_eq_some_iff.1 here
  have line := List.countP_eq_zero.1 none t List.mem_cons_self
  simpa [isKind] using line

/-- Items behind separators. The loop goes on behind a separator only, and a number bounds its rounds. -/
structure Rounds (sep : Token → Bool) (item : Reader α) (next : Token → β → α → β) (loop : Nat → β → Reader β) :
    Prop where
  zero : ∀ b, loop 0 b = pure b
  stop : ∀ n b finish ts, ts.head?.any sep = false → loop (n + 1) b finish ts = .ok (b, ts)
  go : ∀ n b finish t ts, sep t = true →
    loop (n + 1) b finish (t :: ts) = (item >>= fun a => loop n (next t b a)) finish ts

namespace Rounds

variable {sep : Token → Bool} {item : Reader α} {next : Token → β → α → β} {loop : Nat → β → Reader β} {b c : β}
  (h : Rounds sep item next loop)

include h

theorem ended (lacks : ts.head?.any sep = false) (n : Nat) : loop n b finish ts = .ok (b, ts) := by
  cases n with
  | zero =>
    rw [h.zero]
    rfl
  | succ n => exact h.stop n b finish ts lacks

theorem takes (reads : Takes 0 item) (n : Nat) (b : β) : Takes 0 (loop n b) := by
  induction n generalizing b with
  | zero =>
    rw [h.zero]
    exact .pure b
  | succ n ih =>
    intro finish ts c rest ran
    cases here : ts.head?.any sep with
    | false =>
      rw [h.ended here] at ran
      cases ran
      exact ⟨[], rfl, Nat.zero_le _⟩
    | true =>
      cases ts with
      | nil => cases here
      | cons t ts =>
        rw [h.go n b finish t ts here] at ran
        obtain ⟨taken, rfl, -⟩ := (reads.after fun a => ih (next t b a)) _ _ _ _ ran
        exact ⟨t :: taken, rfl, Nat.zero_le _⟩

variable (dark : ∀ t, t.kind = .newline → sep t = false) (edge : ∀ rest, E rest → rest.head?.any sep = false)

include dark edge

/-- The items and the separators are read alike, if no separator follows. -/
theorem grows (reads : Local E 0 item) {n n' : Nat} (enough : count ts ≤ n) (enough' : count (ts ++ rest) ≤ n')
    (ran : loop n b finish ts = .ok (c, left)) (ends : left = [] → E rest) (finish' : Location) :
    loop n' b finish' (ts ++ rest) = .ok (c, left ++ rest) := by
  induction n generalizing n' ts b with
  | zero =>
    rw [h.zero] at ran
    cases ran
    -- The bound is spent, so only ends of lines are left.
    refine h.ended ?_ n'
    cases left with
    | nil => exact edge rest (ends rfl)
    | cons t ts => exact dark t (line_of_count (Nat.le_zero.1 enough) rfl)
  | succ n ih =>
    cases ts with
    | nil =>
      rw [h.ended rfl] at ran
      cases ran
      exact h.ended (edge rest (ends rfl)) n'
    | cons t ts =>
      cases here : sep t with
      | false =>
        have stop : (t :: ts).head?.any sep = false := here
        rw [h.ended stop] at ran
        cases ran
        exact h.ended (show (t :: (ts ++ rest)).head?.any sep = false from here) n'
      | true =>
        have dark : isKind .newline t = false := by
          refine beq_eq_false_iff_ne.2 fun line => ?_
          rw [dark t line] at here
          cases here
        rw [List.cons_append, count_cons dark] at enough'
        rw [count_cons dark] at enough
        obtain ⟨n', rfl⟩ := Nat.exists_eq_add_one.2 (Nat.zero_lt_of_lt enough')
        rw [h.go n b finish t ts here] at ran
        obtain ⟨a, mid, read, made⟩ := bind_eq_ok ran
        have fewer := reads.takes.count_le read
        have follows : mid = [] → E rest := by
          rintro rfl
          rw [h.ended rfl] at made
          cases made
          exact ends rfl
        have later : count (mid ++ rest) ≤ n' := by
          rw [count_append] at enough' ⊢
          omega
        rw [List.cons_append, h.go n' b finish' t (ts ++ rest) here,
          bind_of_ok (reads.grows read finish' rest follows)]
        exact ih (by omega) later made

/-- An item, and then the loop. -/
theorem local_list (reads : Local E 1 item) (start : α → β) :
    Local E 1 (do let a ← item; loop (← Reader.left) (start a)) := by
  have some := h.takes (reads.takes.mono (Nat.zero_le 1))
  refine ⟨reads.takes.after fun a => Takes.left.after fun n => some n (start a), ?_⟩
  intro finish ts c left ran finish' rest ends
  obtain ⟨a, mid, read, made⟩ := bind_eq_ok ran
  have more : loop (count mid) (start a) finish mid = .ok (c, left) := made
  have follows : mid = [] → E rest := by
    rintro rfl
    rw [h.ended rfl] at more
    cases more
    exact ends rfl
  rw [bind_of_ok (reads.grows read finish' rest follows)]
  exact h.grows dark edge reads.lax (Nat.le_refl _) (Nat.le_refl _) more ends finish'

end Rounds

theorem Local.commaList {item : Reader α} (h : Local Never 1 item) : Local Never 1 (commaList item) := by
  have rounds : Rounds (isKind .comma) item (fun _ items a => items ++ [a]) (moreItems item) :=
    ⟨fun _ => rfl, fun n items _ _ lacks => moreItems_of_not (n + 1) items lacks, fun n items finish t ts comma => by
      rw [moreItems, bind_of_ok (accept_of comma)]
      rfl⟩
  exact rounds.local_list (fun t line => by simp [isKind, line]) nofun h fun a => [a]

variable {operand : Reader Expr} {operators : OperatorClass}

theorem absent_of_any (lacks : ts.head?.any (fun t => (operators t).isSome) = false) (t : Token)
    (here : ts.head? = some t) : operators t = none := by
  rw [here] at lacks
  exact Option.not_isSome_iff_eq_none.1 (by simpa using lacks)

variable (edge : ∀ rest, E rest → rest.head?.any (fun t => (operators t).isSome) = false)

include edge

theorem Local.acceptOf : Local E 0 (acceptOf operators) := by
  have front (t : Token) (ts : List Token) (finish : Location) :
      (Reader.acceptOf operators : Reader _) finish (t :: ts) =
        .ok ((operators t).map (·, t.location), if (operators t).isSome then ts else t :: ts) := by
    cases here : operators t with
    | none => exact acceptOf_of_none (by simpa using here)
    | some op => exact acceptOf_of_some here
  constructor
  · intro finish ts found left ran
    cases ts with
    | nil =>
      cases ran
      exact ⟨[], rfl, Nat.zero_le _⟩
    | cons t ts =>
      rw [front] at ran
      cases ran
      split
      · exact ⟨[t], rfl, Nat.zero_le _⟩
      · exact ⟨[], rfl, Nat.zero_le _⟩
  · intro finish ts found left ran finish' rest ends
    cases ts with
    | nil =>
      cases ran
      exact acceptOf_of_none (absent_of_any (edge rest (ends rfl)))
    | cons t ts =>
      rw [front] at ran
      cases ran
      rw [List.cons_append, front]
      split <;> rfl

theorem Local.chain (h : Local E 1 operand) (plain : PlainClass operators) : Local E 1 (chain operators operand) := by
  have rounds : Rounds (fun t => (operators t).isSome) operand
      (fun t e right => ((operators t).map (.binary · e right t.location)).getD e) (chainFrom operators operand) := by
    refine ⟨fun _ => rfl, fun n e finish ts lacks => ?_, fun n e finish t ts goes => ?_⟩
    · rw [chainFrom, bind_of_ok (acceptOf_of_none (absent_of_any lacks))]
      rfl
    · obtain ⟨op, here⟩ := Option.isSome_iff_exists.1 goes
      rw [chainFrom, bind_of_ok (acceptOf_of_some here), here]
      rfl
  exact rounds.local_list (fun t line => by rw [plain.dark t line]; rfl) edge h id

end Loops

/-- Nothing follows that goes on with an expression. -/
def Done (rest : List Token) : Prop := ∀ t, rest.head? = some t → ¬ t.Continues

theorem Done.operators (level : Pseudocode.Level) :
    ∀ rest, Done rest → rest.head?.any (fun t => (level.operators t).isSome) = false := by
  intro rest done
  cases rest with
  | nil => rfl
  | cons t rest =>
    refine Option.isSome_eq_false_iff.2 (Option.isNone_iff_eq_none.2 ?_)
    cases known : level.operators t with
    | none => rfl
    | some op => exact absurd (.inr (.inr ⟨op, (Level.level_of_operators known).2⟩)) (done t rfl)

theorem Done.not_kind {kind : TokenKind} (mark : kind = .leftParen ∨ kind = .leftBracket) :
    ∀ rest, Done rest → rest.head?.any (isKind kind) = false := by
  intro rest done
  exact Stops.not_kind (.of_not_continues done) mark

/-- Readers for one level more. -/
structure Nested.Local (inner : Nested Reader) : Prop where
  expression : Reader.Local Done 1 inner.expression
  negation : Reader.Local Done 1 inner.negation
  unary : Reader.Local Done 1 inner.unary
  type : ∀ E, Reader.Local E 1 inner.type

namespace Local

variable {inner : Nested Reader} {start : Location}

theorem bound : Local E 1 bound := by
  refine place.before fun start => ?_
  have refused : Fails (do Reader.failAt start (.boundNotLiteral (← Reader.found)) : Reader Int) :=
    fun _ ts => by cases ts <;> exact ⟨_, rfl⟩
  refine (accept _).before fun negative => peekThen refused fun t => ?_
  obtain ⟨kind, text, l⟩ := t
  cases kind with
  | number n => exact .ite (.advance (pure _)) ((of_fails refused).known _)
  | _ => exact (of_fails refused).known _

theorem bounds : Local E 1 bounds :=
  bound.before fun _ => (expectKind _ _).before fun _ => bound.bind fun _ => pure _

theorem dimensions : Local Never 0 dimensions := by
  refine acceptThen ?_ (pure []) nofun
  exact (bounds.commaList.before fun _ => (expectKind _ _).bind fun _ => pure _).lax

theorem typeClause (h : inner.Local) : Local E 1 (typeClause inner) := by
  refine place.before fun start => peekThen (.expected _) fun t => ?_
  dsimp only
  split
  · exact .advance (pure _)
  · refine Local.known ?_ t
    refine acceptThen ?_ (acceptThen ?_ (acceptThen ?_ (of_fails (.expected _)) nofun) nofun) nofun
    · refine (dimensions.before fun _ => (expectKeyword _ _).before fun _ => (h.type E).bind fun element => ?_).lax
      exact ite (of_fails (Fails.failAt _ _).bind) (pure _)
    · exact ((expectKeyword _ _).before fun _ => (h.type E).bind fun _ => pure _).lax
    · exact ((h.type E).bind fun _ => pure _ : Local E 1 _).lax

theorem arguments (h : inner.Local) : Local E 1 (arguments inner) := by
  refine (expectKind _ _).before fun _ => acceptThen (pure []) ?_ nofun
  exact h.expression.never.commaList.before fun _ => (expectKind _ _).bind fun _ => pure _

/-- A name alone goes on with a bracket. -/
theorem named (h : inner.Local) (name : String) (start : Location) : Local Done 0 (named inner name start) := by
  refine (check (Done.not_kind (.inl rfl))).bind fun call => ite ?_ ?_
  · exact ((arguments h).bind fun _ => pure _ : Local Done 1 _).lax
  · refine acceptThen ?_ (pure _) fun _ => Done.not_kind (.inr rfl)
    exact (h.expression.never.commaList.before fun _ => (expectKind _ _).bind fun _ => pure _).lax

theorem allocation (h : inner.Local) (start : Location) : Local E 1 (allocation inner start) := by
  refine (expectKind _ _).before fun _ => h.expression.never.before fun size => ?_
  have closing (tag : Option DataType) : Local E 1 (do
      Reader.expectKind .rightParen "')' after MALLOC arguments"
      Pure.pure (Expr.allocate size tag start)) := (expectKind _ _).bind fun _ => pure _
  exact acceptThen ((typeClause h).map.before closing).lax (closing none) nofun

theorem typeSize (h : inner.Local) (start : Location) : Local E 1 (typeSize inner start) :=
  (expectKind _ _).before fun _ => (typeClause h).before fun _ => (expectKind _ _).bind fun _ => pure _

theorem endOfFile (h : inner.Local) (start : Location) : Local E 1 (endOfFile inner start) :=
  (expectKind _ _).before fun _ => h.expression.never.before fun _ => (expectKind _ _).bind fun _ => pure _

end Local

theorem LocalAt.reserved {inner : Nested Reader} (h : inner.Local) (t : Token) (word : String) (start : Location) :
    LocalAt t E 1 (reserved inner word start) := by
  unfold Reader.reserved
  split
  · exact .advance (.pure _)
  · exact .advance (.pure _)
  · exact .advance (.pure _)
  · exact .advance (Local.allocation h start).lax
  · exact .advance (Local.typeSize h start).lax
  · exact .advance (Local.endOfFile h start).lax
  · exact (Local.of_fails (.expected _)).known t

namespace Local

variable {inner : Nested Reader} {start : Location}

theorem primary (h : inner.Local) : Local Done 1 (primary inner) := by
  refine peekThen (.expected _) fun t => ?_
  dsimp only
  split
  · exact .advance (pure _)
  · exact .advance (pure _)
  · exact .advance (pure _)
  · exact .advance (h.expression.never.before fun _ => (expectKind _ _).bind fun _ => pure _).lax
  · exact .advance (named h _ _)
  · exact .reserved h t _ _
  · exact (of_fails (.expected _)).known t

theorem unary (h : inner.Local) : Local Done 1 (unary inner) := by
  have operand (g : Expr → Expr) : Local Done 1 (do return g (← inner.unary)) := h.unary.bind fun _ => pure _
  refine place.before fun start => ?_
  refine acceptThen (operand _).lax (acceptThen (operand _).lax ?_ nofun) nofun
  exact acceptThen (operand _).lax (primary h) nofun

theorem comparison (h : inner.Local) : Local Done 1 (comparison inner) := by
  have sum : Local Done 1 (Reader.sum inner) :=
    chain (Done.operators .sum) (chain (Done.operators .product) (unary h) plain_product) plain_sum
  refine sum.bind fun left => (acceptOf (Done.operators .comparison)).bind fun found => ?_
  cases found with
  | none => exact pure left
  | some found =>
    refine sum.lax.bind fun right => (check (Done.operators .comparison)).bind fun chained => ?_
    exact ite (of_fails (Fails.fail _).bind) (pure _)

theorem negation (h : inner.Local) : Local Done 1 (negation inner) := by
  refine place.before fun start => acceptThen ?_ (comparison h) nofun
  exact (h.negation.bind fun _ => pure _ : Local Done 1 _).lax

theorem disjunction (h : inner.Local) : Local Done 1 (disjunction inner) :=
  chain (Done.operators .disjunction) (chain (Done.operators .conjunction) (negation h) plain_and) plain_or

end Local

theorem nested_local (n : Nat) : (nested n).Local := by
  induction n with
  | zero => exact ⟨.of_fails (.fail _), .of_fails (.fail _), .of_fails (.fail _), fun _ => .of_fails (.fail _)⟩
  | succ n ih => exact ⟨.disjunction ih, .negation ih, .unary ih, fun _ => .typeClause ih⟩

theorem expression_local : Local Done 1 expression := (nested_local maxNesting).expression

theorem type_local : Local E 1 type := .typeClause (nested_local maxNesting)

end Pseudocode.Reader
