import Pseudocode.Proofs.Reading.Agreement
import Pseudocode.Proofs.Reading.Rules

/-!
Loops over the tokens. Each of them is given the number of tokens left, ends of lines apart, as a bound on the
number of its rounds; and a round takes at least one of these (`statement_takes`).
-/

namespace Pseudocode.Reader

/-- Begun at `P`, a reader has taken tokens from the front and is at `Q`, and of what it gives `K` holds. -/
def Leads {α : Type} (P Q : Spot) (K : α → Prop) (r : Reader α) : Prop :=
  ∀ finish ts a rest, P.Known ts → r finish ts = .ok (a, rest) → K a ∧ rest <:+ ts ∧ Q.Known rest

namespace Leads

variable {α β : Type} {P Q R : Spot} {K : α → Prop} {L : β → Prop} {x : Reader α} {f : α → Reader β} {t : Token}

theorem pure {a : α} (holds : K a) : Leads P P K (pure a) := by
  intro finish ts b rest known ran
  cases ran
  exact ⟨holds, List.suffix_rfl, known⟩

theorem of_fails {r : Reader α} (h : Fails r) : Leads P Q K r := by
  intro finish ts a rest _ ran
  obtain ⟨e, failed⟩ := h finish ts
  cases ran.symm.trans failed

theorem bind (first : Leads P Q K x) (next : ∀ a, K a → Leads Q R L (f a)) : Leads P R L (x >>= f) := by
  intro finish ts b rest known ran
  obtain ⟨a, mid, read, made⟩ := bind_eq_ok ran
  obtain ⟨holds, taken, there⟩ := first _ _ _ _ known read
  obtain ⟨holds', taken', there'⟩ := next a holds _ _ _ _ there made
  exact ⟨holds', taken'.trans taken, there'⟩

theorem peekThen {f : Option Token → Reader β} (none : Leads .line Q L (f none))
    (some : ∀ t, Leads (.token t) Q L (f (some t))) : Leads .line Q L (peek >>= f) := by
  intro finish ts b rest _ ran
  cases ts with
  | nil => exact none _ _ _ _ trivial ran
  | cons t ts => exact some t _ _ _ _ rfl ran

theorem peekAt {f : Option Token → Reader β} (next : Leads (.token t) Q L (f (some t))) :
    Leads (.token t) Q L (peek >>= f) := by
  intro finish ts b rest known ran
  obtain ⟨us, rfl⟩ := List.head?_eq_some_iff.1 known
  exact next _ _ _ _ known ran

theorem place : Leads .line .line Any place := by
  intro finish ts l rest _ ran
  cases ts <;> cases ran <;> exact ⟨trivial, List.suffix_rfl, trivial⟩

theorem advance {f : Unit → Reader β} (next : Leads .line Q L (f ())) :
    Leads (.token t) Q L (Reader.advance >>= f) := by
  intro finish ts b rest known ran
  obtain ⟨us, rfl⟩ := List.head?_eq_some_iff.1 known
  obtain ⟨holds, taken, there⟩ := next _ us _ _ trivial ran
  exact ⟨holds, taken.trans (List.suffix_cons t us), there⟩

theorem skipNewlines : Leads P .line Any skipNewlines := by
  intro finish ts a rest _ ran
  cases ran
  exact ⟨trivial, List.dropWhile_suffix _, trivial⟩

end Leads

/-- A reader agrees with itself. -/
def leading : Accord Reader Reader where
  place := id
  node := id
  Inside _ := True
  Alike _ P Q _ K r _ := Leads P Q K r
  known alike _ finish ts a rest _ := alike finish ts a rest trivial
  tight alike := alike
  loosen alike finish ts a rest known ran :=
    (alike finish ts a rest known ran).imp_right (And.imp_right fun _ => trivial)
  given := Leads.pure
  bind := Leads.bind
  peekThen none some := .peekThen none fun t => some t (fun _ => rfl) trivial
  peekAt := Leads.peekAt
  placed := Leads.place
  placeThen dark _ := Leads.place.bind dark
  advance _ := Leads.advance
  advanceLine _ := Leads.advance
  failThen complaint _ := Leads.of_fails (Fails.failAt _ complaint).bind
  skipNewlines := Leads.skipNewlines
  counted next finish ts a rest := next (count ts) finish ts a rest
  exhausted alike := alike

section Blocks

variable {n : Nat}

theorem statementsUntil_leads {one : Reader (List Stmt)} (h : leading.Statements 0 n one one)
    (stop : List Token → Bool) (k : Nat) {done : List Stmt} (before : ∀ s ∈ done, s.Fits leading.Inside n) {P : Spot} :
    Leads P .line (fun found => ∀ s ∈ found, s.Fits leading.Inside n) (statementsUntil stop one k done) := by
  induction k generalizing done P with
  | zero => exact Leads.skipNewlines.bind fun _ _ => .pure before
  | succ k ih =>
    refine Leads.skipNewlines.bind fun _ _ finish ts a rest _ ran => ?_
    have ran : (if stop ts then pure done else one >>= fun found => _ : Reader (List Stmt)) finish ts = _ := ran
    split at ran
    · cases ran
      exact ⟨before, List.suffix_rfl, trivial⟩
    · exact Leads.bind h (fun found fits => ih (List.forall_mem_append.2 ⟨before, fits⟩)) _ _ _ _ trivial ran

theorem blocks_lead (n : Nat) : leading.OnBlocks n (blocks n) (blocks n) := by
  induction n with
  | zero => exact ⟨fun _ _ => .of_fails (.fail _), fun _ => .of_fails (.fail _)⟩
  | succ n ih =>
    have one : leading.Statements 0 n (statement .inside (blocks n)) (statement .inside (blocks n)) :=
      .statement (leading.onNested maxNesting) ih .inside
    refine ⟨fun few closing => ?_, fun few => ?_⟩
    · refine leading.counted fun k => (statementsUntil_leads one _ k (List.forall_mem_nil _)).bind fun body fits => ?_
      have ended : leading.Agree few atEnd atEnd := .atEnd
      refine Leads.bind ended fun ended _ => ?_
      split
      · exact .of_fails (Fails.expected _).bind
      · exact .pure (.of_forall fits)
    · exact leading.counted fun k => .weaken (statementsUntil_leads one _ k (List.forall_mem_nil _)) fun _ => .of_forall

end Blocks

theorem Leads.takes {α : Type} {Q : Spot} {K : α → Prop} {r : Reader α} (h : Leads .line Q K r) : Takes 0 r := by
  intro finish ts a rest ran
  obtain ⟨-, ⟨taken, text⟩, -⟩ := h _ _ _ _ trivial ran
  exact ⟨taken, text.symm, Nat.zero_le _⟩

/-- A statement begins with a keyword, or it has an arrow behind what is assigned to. -/
theorem statement_takes (level : Reader.Level) (n : Nat) : Takes 1 (statement level (blocks n)) := by
  have outer := leading.onNested maxNesting
  have keyword (word : String) (start : Location) :
      leading.Statements 0 n (afterKeyword level (blocks n) word start) (afterKeyword level (blocks n) word start) :=
    .afterKeyword outer trivial (blocks_lead n) level word rfl
  have target : leading.Expression 0 (maxNesting + 1) assignable assignable := .assignable outer
  have value : leading.Expression 0 (maxNesting + 1) expression expression := .expression outer
  have line : leading.Alike 0 .line .gap id Any endOfStatement endOfStatement := .endOfStatement
  have assigned (start : Location) : Takes 1 (assignment start : Reader Stmt) :=
    (Leads.takes target).after fun _ => (Takes.expectKind _ _).after fun _ =>
      (Leads.takes value).after fun _ => (Leads.takes line).after fun _ => .pure _
  refine .peekThen (Fails.takes (fun _ ts => ?_) 1) fun t => .ite (.advance (Leads.takes (keyword _ _))) (.ite ?_ ?_)
  · cases ts <;> exact ⟨_, rfl⟩
  · refine Takes.known ?_ t
    rw [map_eq_pure_bind]
    exact (assigned t.location).after fun s => .pure [s]
  · exact ((Fails.fail _).takes 1).known t

variable {α : Type} {k n : Nat} {x : Reader α} {finish : Location} {ts rest : List Token} {a : α}

theorem count_dropWhile (ts : List Token) : count (ts.dropWhile (isKind .newline)) = count ts := by
  induction ts with
  | nil => rfl
  | cons t ts ih =>
    cases line : isKind .newline t with
    | false => rw [List.dropWhile_cons_of_neg (by rw [line]; exact Bool.false_ne_true)]
    | true =>
      rw [List.dropWhile_cons_of_pos line, ih]
      exact (List.countP_cons_of_neg (by simp [line])).symm

theorem count_of_dropWhile {t : Token} {us : List Token} (behind : ts.dropWhile (isKind .newline) = t :: us) :
    count ts = count us + 1 := by
  have head := List.head?_dropWhile_not (isKind .newline) ts
  rw [behind] at head
  rw [← count_dropWhile ts, behind]
  exact count_cons (by simpa using head)

/-- Behind the ends of lines, the first token that is taken counts. -/
theorem Takes.count_lt (h : Takes 1 x) (ran : x finish (ts.dropWhile (isKind .newline)) = .ok (a, rest)) :
    count rest < count ts := by
  obtain ⟨taken, text, some⟩ := h _ _ _ _ ran
  obtain ⟨t, taken, rfl⟩ := List.exists_cons_of_length_pos some
  rw [count_of_dropWhile text]
  exact Nat.lt_succ_of_le (List.sublist_append_right taken rest).countP_le

section Operators

variable {operators : OperatorClass} {t : Token}

theorem acceptOf_of_none (absent : ∀ t, ts.head? = some t → operators t = none) :
    (acceptOf operators : Reader _) finish ts = .ok (none, ts) := by
  cases ts with
  | nil => rfl
  | cons t ts =>
    rw [acceptOf, bind_of_ok peek_cons]
    simp only [absent t rfl]
    rfl

theorem acceptOf_of_some {op : BinaryOperator} (here : operators t = some op) :
    (acceptOf operators : Reader _) finish (t :: ts) = .ok (some (op, t.location), ts) := by
  rw [acceptOf, bind_of_ok peek_cons]
  simp only [here]
  rfl

end Operators

section Statements

variable {one : Reader (List Stmt)} {stop : List Token → Bool} {done found : List Stmt} {e : SyntaxError}

theorem statementsUntil_of_stop (stopped : stop (ts.dropWhile (isKind .newline)) = true) :
    statementsUntil stop one n done finish ts = .ok (done, ts.dropWhile (isKind .newline)) := by
  cases n with
  | zero => rfl
  | succ n =>
    show (if stop (ts.dropWhile (isKind .newline)) then _ else _ : Reader (List Stmt)) finish _ = _
    rw [stopped]
    rfl

theorem statementsUntil_of_ok (goesOn : stop (ts.dropWhile (isKind .newline)) = false)
    (read : one finish (ts.dropWhile (isKind .newline)) = .ok (found, rest)) :
    statementsUntil stop one (n + 1) done finish ts = statementsUntil stop one n (done ++ found) finish rest := by
  show (if stop (ts.dropWhile (isKind .newline)) then _ else _ : Reader (List Stmt)) finish _ = _
  rw [goesOn]
  exact bind_of_ok read

theorem statementsUntil_of_error (goesOn : stop (ts.dropWhile (isKind .newline)) = false)
    (failed : one finish (ts.dropWhile (isKind .newline)) = .error e) :
    statementsUntil stop one (n + 1) done finish ts = .error e := by
  show (if stop (ts.dropWhile (isKind .newline)) then _ else _ : Reader (List Stmt)) finish _ = _
  rw [goesOn]
  exact bind_of_error failed

/-- Where nothing but ends of lines is left, they are all skipped. -/
theorem dropWhile_of_count (none : count ts = 0) : ts.dropWhile (isKind .newline) = [] := by
  cases behind : ts.dropWhile (isKind .newline) with
  | nil => rfl
  | cons t us => exact absurd (none.symm.trans (count_of_dropWhile behind)) (Nat.succ_ne_zero _).symm

/-- The statements end where they should. -/
theorem stop_of_statementsUntil (takes : Takes 1 one) (last : stop [] = true) (enough : count ts ≤ n)
    (ran : statementsUntil stop one n done finish ts = .ok (found, rest)) : stop rest = true := by
  induction n generalizing done ts with
  | zero =>
    have none := dropWhile_of_count (Nat.le_zero.1 enough)
    rw [statementsUntil_of_stop (by rw [none, last]), none] at ran
    cases ran
    exact last
  | succ n ih =>
    cases stopped : stop (ts.dropWhile (isKind .newline)) with
    | true =>
      rw [statementsUntil_of_stop stopped] at ran
      cases ran
      exact stopped
    | false =>
      cases read : one finish (ts.dropWhile (isKind .newline)) with
      | error e =>
        rw [statementsUntil_of_error stopped read] at ran
        cases ran
      | ok answer =>
        rw [statementsUntil_of_ok stopped read] at ran
        have some := takes.count_lt read
        exact ih (by omega) ran

/-- No more rounds than there are tokens are needed. -/
theorem statementsUntil_settled {m : Nat} (takes : Takes 1 one) (last : stop [] = true) (enough : count ts ≤ n)
    (enough' : count ts ≤ m) :
    statementsUntil stop one n done finish ts = statementsUntil stop one m done finish ts := by
  have spent (none : count ts = 0) : stop (ts.dropWhile (isKind .newline)) = true := by
    rw [dropWhile_of_count none, last]
  induction n generalizing m done ts with
  | zero =>
    have stopped := spent (Nat.le_zero.1 enough)
    rw [statementsUntil_of_stop stopped, statementsUntil_of_stop stopped]
  | succ n ih =>
    cases stopped : stop (ts.dropWhile (isKind .newline)) with
    | true => rw [statementsUntil_of_stop stopped, statementsUntil_of_stop stopped]
    | false =>
      cases m with
      | zero => exact absurd (stopped.symm.trans (spent (Nat.le_zero.1 enough'))) Bool.false_ne_true
      | succ m =>
        cases read : one finish (ts.dropWhile (isKind .newline)) with
        | error e => rw [statementsUntil_of_error stopped read, statementsUntil_of_error stopped read]
        | ok answer =>
          have fewer := takes.count_lt read
          rw [statementsUntil_of_ok stopped read, statementsUntil_of_ok stopped read]
          exact ih (by omega) (by omega) fun none => by rw [dropWhile_of_count none, last]

end Statements

end Pseudocode.Reader
