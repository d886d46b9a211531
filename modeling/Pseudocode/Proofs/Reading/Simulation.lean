import Pseudocode.Proofs.Reading.Loops
import Pseudocode.Syntax.Parser

/-!
The parser and the readers of lists of tokens do the same (`Parser.Sim`). Where a reader gives a tree or an error, the
parser gives it too, stands before the tokens that the reader has left, and has its counters as they were. So a
parser never crashes, and what it makes of a list of tokens is what the readers make of it (`Program.ofTokens_eq`).
-/

namespace Pseudocode.Parser

open Reader

instance : LawfulMonad Parse := inferInstanceAs (LawfulMonad (ExceptT _ _))

/-- An array of tokens, the first end of input in it being `last` at `stop`. -/
structure Source where
  tokens : Array Token
  stop : Nat
  last : Token
  found : tokens[stop]? = some last
  ends : last.kind = .endOfInput
  before : ∀ t ∈ tokens.toList.take stop, t.kind ≠ .endOfInput

namespace Source

variable (s : Source)

/-- The tokens from a position to the end of input. -/
def rest (k : Nat) : List Token := (s.tokens.toList.take s.stop).drop k

def left (k : Nat) : Nat := count (s.rest k)

/-- These tokens and the end of input stand at places in `S`. -/
def Inside (S : Location → Prop) : Prop := S s.last.location ∧ ∀ t ∈ s.rest 0, S t.location

/-- A parser of these tokens. -/
def state (k b d : Nat) : Parser := ⟨s.tokens, k, b, d⟩

variable {s} {k k' b d : Nat} {t : Token} {ts : List Token}

theorem rest_cons (here : s.rest k = t :: ts) : k < s.stop ∧ s.tokens[k]? = some t ∧ s.rest (k + 1) = ts := by
  have head : (s.rest k)[0]? = some t := by rw [here]; rfl
  have tail : s.rest (k + 1) = (s.rest k).tail := by rw [rest, rest, List.tail_drop]
  rw [rest, List.getElem?_drop, Nat.add_zero, List.getElem?_take] at head
  split at head
  · next inside =>
    rw [Array.getElem?_toList] at head
    exact ⟨inside, head, by rw [tail, here, List.tail_cons]⟩
  · cases head

theorem rest_nil (inside : k ≤ s.stop) (here : s.rest k = []) : k = s.stop := by
  have room : s.stop < s.tokens.toList.length := (Array.getElem?_eq_some_iff.1 s.found).1
  have length : (s.rest k).length = s.stop - k := by
    rw [rest, List.length_drop, List.length_take]
    omega
  rw [here, List.length_nil] at length
  omega

theorem other_of_mem (mem : t ∈ s.rest k) : isKind .endOfInput t = false :=
  beq_eq_false_iff_ne.2 (s.before t (List.mem_of_mem_drop mem))

theorem inside_any : s.Inside Any := ⟨trivial, fun _ _ => trivial⟩

theorem Inside.of_mem {S : Location → Prop} (there : s.Inside S) (mem : t ∈ s.rest k) : S t.location :=
  there.2 t (List.mem_of_mem_drop mem)

theorem ends_last : isKind .endOfInput s.last = true := beq_iff_eq.2 s.ends

/-- There is only one first end of input. -/
theorem stop_eq {s s' : Source} (same : s.tokens = s'.tokens) : s.stop = s'.stop := by
  have earlier {s s' : Source} (same : s.tokens = s'.tokens) : ¬ s.stop < s'.stop := by
    intro lt
    refine s'.before s.last (List.mem_of_getElem? (i := s.stop) ?_) s.ends
    rw [List.getElem?_take_of_lt lt, Array.getElem?_toList, ← same, s.found]
  exact Nat.le_antisymm (Nat.not_lt.1 (earlier same.symm)) (Nat.not_lt.1 (earlier same))

/-- Behind more tokens, fewer are left. -/
theorem left_le (later : k ≤ k') : s.left k' ≤ s.left k := by
  obtain ⟨n, rfl⟩ := Nat.exists_eq_add_of_le later
  have behind : s.rest (k + n) = (s.rest k).drop n := List.drop_drop.symm
  rw [left, behind]
  exact (List.drop_sublist n (s.rest k)).countP_le

theorem left_eq (inside : k ≤ s.stop) : (s.state k b d).left = s.left k := by
  obtain ⟨room, last⟩ := List.getElem?_eq_some_iff.1 (Array.getElem?_toList ▸ s.found)
  have parts : s.tokens.toList.drop k = s.rest k ++ s.last :: s.tokens.toList.drop (s.stop + 1) := by
    rw [rest, ← last, ← List.drop_eq_getElem_cons, ← List.drop_append_of_le_length, List.take_append_drop]
    rw [List.length_take]
    omega
  have others : ∀ t ∈ s.rest k, (!isKind .endOfInput t) = true := fun t mem => by rw [other_of_mem mem]; rfl
  unfold Parser.left
  rw [state, parts, List.takeWhile_append_of_pos others, List.takeWhile_cons, ends_last]
  exact congrArg _ (List.append_nil _)

end Source

section Runs

variable {α β : Type} {x : Parse α} {f : α → Parse β} {p p' : Parser}

theorem bind_of_ok {a : α} (ran : x p = some (.ok a, p')) : (x >>= f) p = f a p' := by
  show Option.bind (x p) (fun q => ExceptT.bindCont f q.1 q.2) = _
  rw [ran]
  rfl

theorem bind_of_error {e : SyntaxError} (ran : x p = some (.error e, p')) : (x >>= f) p = some (.error e, p') := by
  show Option.bind (x p) (fun q => ExceptT.bindCont f q.1 q.2) = _
  rw [ran]
  rfl

theorem outcome_of {result : Except SyntaxError α} (ran : x p = some (result, p')) :
    outcome x p = some (.ok result, p') := by
  show Option.bind (x p) (fun (result, p) => some ((.ok result : Except SyntaxError _), p)) = _
  rw [ran]
  rfl

variable {s : Source} {k b d : Nat}

theorem current_of_found {t : Token} (here : s.tokens[k]? = some t) :
    current (s.state k b d) = some (.ok t, s.state k b d) := by
  have got : (get : Parse Parser) (s.state k b d) = some (.ok (s.state k b d), s.state k b d) := rfl
  have found : (s.state k b d).tokens[(s.state k b d).position]? = some t := here
  rw [current, bind_of_ok got, found]
  rfl

theorem peek_eq (inside : k ≤ s.stop) :
    (peek : Parse (Option Token)) (s.state k b d) = some (.ok (s.rest k).head?, s.state k b d) := by
  cases here : s.rest k with
  | nil =>
    obtain rfl := Source.rest_nil inside here
    refine (bind_of_ok (current_of_found s.found)).trans ?_
    rw [Source.ends_last]
    rfl
  | cons t ts =>
    refine (bind_of_ok (current_of_found (Source.rest_cons here).2.1)).trans ?_
    rw [Source.other_of_mem (here ▸ List.mem_cons_self)]
    rfl

theorem advance_eq {t : Token} {ts : List Token} (here : s.rest k = t :: ts) :
    (Reader.advance : Parse Unit) (s.state k b d) = some (.ok (), s.state (k + 1) b d) := by
  refine (bind_of_ok (current_of_found (Source.rest_cons here).2.1)).trans ?_
  rw [Source.other_of_mem (here ▸ List.mem_cons_self)]
  rfl

theorem skipLines_eq (inside : k ≤ s.stop) {n : Nat} (room : s.stop - k < n) :
    ∃ k', k ≤ k' ∧ k' ≤ s.stop ∧ (s.rest k).dropWhile (isKind .newline) = s.rest k' ∧
      skipLines n (s.state k b d) = some (.ok (), s.state k' b d) := by
  induction n generalizing k with
  | zero => exact absurd room (Nat.not_lt_zero _)
  | succ n ih =>
    cases here : s.rest k with
    | nil =>
      obtain rfl := Source.rest_nil inside here
      refine ⟨s.stop, Nat.le_refl _, Nat.le_refl _, here.symm, (bind_of_ok (current_of_found s.found)).trans ?_⟩
      simp only [isKind, s.ends]
      rfl
    | cons t ts =>
      obtain ⟨lt, found, rfl⟩ := Source.rest_cons here
      cases line : isKind .newline t with
      | false =>
        refine ⟨k, Nat.le_refl _, inside, ?_, (bind_of_ok (current_of_found found)).trans ?_⟩
        · rw [List.dropWhile_cons_of_neg (by simp [line]), here]
        · rw [line]
          rfl
      | true =>
        obtain ⟨k', later, inside', rest, ran⟩ := ih (k := k + 1) lt (by omega)
        refine ⟨k', by omega, inside', ?_, (bind_of_ok (current_of_found found)).trans ?_⟩
        · rw [List.dropWhile_cons_of_pos line, rest]
        · rw [line]
          exact (bind_of_ok (advance_eq here)).trans ran

theorem skipNewlines_eq (inside : k ≤ s.stop) :
    ∃ k', k ≤ k' ∧ k' ≤ s.stop ∧ (s.rest k).dropWhile (isKind .newline) = s.rest k' ∧
      (skipNewlines : Parse Unit) (s.state k b d) = some (.ok (), s.state k' b d) := by
  have room : s.stop - k < s.tokens.size - k := by
    have := (Array.getElem?_eq_some_iff.1 s.found).1
    omega
  exact skipLines_eq inside room

end Runs

/-- How a reader and the parser end, the parser having been at `k` with an expression counter of `d`: with the
same result, of which `K` holds and which leaves a block counter of `c`, or with the same error, which leaves one
of `e`. -/
inductive Meets {α : Type} (s : Source) (S : Location → Prop) (k d c e : Nat) (Q : Spot) (g : α → α) (K : α → Prop) :
    Except SyntaxError (α × List Token) → Option (Except SyntaxError α × Parser) → Prop
  | ok {k' : Nat} (a : α) : K a → k ≤ k' → k' ≤ s.stop → Q.Known (s.rest k') →
    Meets s S k d c e Q g K (.ok (a, s.rest k')) (some (.ok (g a), s.state k' c d))
  | error {k' : Nat} (err : SyntaxError) : S err.location → k ≤ k' → k' ≤ s.stop →
    Meets s S k d c e Q g K (.error err) (some (.error err, s.state k' e d))

/-- The parser does what a reader does, with a block counter of `b` to begin with. -/
def Sim {α : Type} (s : Source) (S : Location → Prop) (d b c e few : Nat) (P Q : Spot) (g : α → α) (K : α → Prop)
    (r : Reader α) (x : Parse α) : Prop :=
  ∀ k ≤ s.stop, s.left k ≤ few → P.Known (s.rest k) →
    Meets s S k d c e Q g K (r s.last.location (s.rest k)) (x (s.state k b d))

variable {s : Source} {S : Location → Prop}

theorem Meets.later {α : Type} {k k' d c e : Nat} {Q R : Spot} {g : α → α} {K : α → Prop}
    {found : Except SyntaxError (α × List Token)} {found' : Option (Except SyntaxError α × Parser)}
    (ends : Meets s S k' d c e Q g K found found') (le : k ≤ k') (weaker : ∀ ts, Q.Known ts → R.Known ts) :
    Meets s S k d c e R g K found found' := by
  cases ends with
  | ok a holds later inside known => exact .ok a holds (Nat.le_trans le later) inside (weaker _ known)
  | error err there later inside => exact .error err there (Nat.le_trans le later) inside

namespace Sim

variable {α β : Type} {d b b' c e few : Nat} {P Q R : Spot} {g : α → α} {h : β → β} {K : α → Prop}
  {L : β → Prop} {r : Reader α} {x : Parse α} {f : α → Reader β} {f' : α → Parse β} {t : Token}

theorem pure {a : α} (holds : K a) : Sim s S d b b e few P P g K (pure a) (pure (g a)) :=
  fun k inside _ known => .ok a holds (Nat.le_refl k) inside known

theorem bind (first : Sim s S d b b' e few P Q g K r x)
    (next : ∀ a, K a → Sim s S d b' c e few Q R h L (f a) (f' (g a))) :
    Sim s S d b c e few P R h L (r >>= f) (x >>= f') := by
  intro k inside fewer known
  have ends := first k inside fewer known
  generalize ran : r s.last.location (s.rest k) = found, ran' : x (s.state k b d) = found' at ends
  cases ends with
  | ok a holds later inside' known' =>
    rw [Reader.bind_of_ok ran, Parser.bind_of_ok ran']
    exact (next a holds _ inside' (Nat.le_trans (Source.left_le later) fewer) known').later later fun _ => id
  | error err there later inside' =>
    rw [Reader.bind_of_error ran, Parser.bind_of_error ran']
    exact .error err there later inside'

theorem peekThen {f : Option Token → Reader β} {f' : Option Token → Parse β} (there : s.Inside S)
    (none : Sim s S d b c e few .line Q h L (f none) (f' none))
    (some : ∀ t, S t.location → Sim s S d b c e few (.token t) Q h L (f (some t)) (f' (some t))) :
    Sim s S d b c e few .line Q h L (peek >>= f) (peek >>= f') := by
  intro k inside fewer _
  rw [Parser.bind_of_ok (peek_eq inside)]
  show Meets s S k d c e Q h L (f (s.rest k).head? s.last.location (s.rest k)) _
  cases here : (s.rest k).head? with
  | none => exact none k inside fewer trivial
  | some t => exact some t (there.of_mem (List.mem_of_mem_head? here)) k inside fewer here

theorem peekAt {f : Option Token → Reader β} {f' : Option Token → Parse β}
    (next : Sim s S d b c e few (.token t) Q h L (f (some t)) (f' (some t))) :
    Sim s S d b c e few (.token t) Q h L (peek >>= f) (peek >>= f') := by
  intro k inside fewer known
  have here : (s.rest k).head? = some t := known
  rw [Parser.bind_of_ok (peek_eq inside)]
  show Meets s S k d c e Q h L (f (s.rest k).head? s.last.location (s.rest k)) _
  rw [here]
  exact next k inside fewer known

/-- The current token is taken. -/
theorem advance {f : Unit → Reader β} {f' : Unit → Parse β} {less : Nat}
    (spent : ∀ ts : List Token, count (t :: ts) ≤ few → count ts ≤ less)
    (next : Sim s S d b c e less .line Q h L (f ()) (f' ())) :
    Sim s S d b c e few (.token t) Q h L (Reader.advance >>= f) (Reader.advance >>= f') := by
  intro k inside fewer known
  obtain ⟨ts, here⟩ := List.head?_eq_some_iff.1 known
  obtain ⟨lt, -, rfl⟩ := Source.rest_cons here
  have ends := next (k + 1) lt (spent _ (here ▸ fewer)) trivial
  rw [Parser.bind_of_ok (advance_eq here), here]
  exact ends.later (Nat.le_succ k) fun _ => id

/-- A token that is no end of a line counts. -/
theorem advanceDark {f : Unit → Reader β} {f' : Unit → Parse β} (dark : t.kind ≠ .newline) :
    Sim s S d b c e (few - 1) .line Q h L (f ()) (f' ()) →
      Sim s S d b c e few (.token t) Q h L (Reader.advance >>= f) (Reader.advance >>= f') := by
  refine advance fun ts fewer => ?_
  rw [count_cons (by simp [isKind, dark])] at fewer
  omega

theorem place (there : s.Inside S) : Sim s S d b b e few .line .line id S place place := by
  intro k inside _ _
  have here : (Reader.place : Parse Location) (s.state k b d) =
      some (.ok (((s.rest k).head?.map (·.location)).getD s.last.location), s.state k b d) := by
    refine (Parser.bind_of_ok (peek_eq inside)).trans ?_
    cases here : s.rest k with
    | nil =>
      obtain rfl := Source.rest_nil inside here
      exact Parser.bind_of_ok (current_of_found s.found)
    | cons t ts => rfl
  have here' : (Reader.place : Reader Location) s.last.location (s.rest k) =
      .ok (((s.rest k).head?.map (·.location)).getD s.last.location, s.rest k) := by
    cases s.rest k <;> rfl
  rw [here, here']
  refine .ok _ ?_ (Nat.le_refl k) inside trivial
  cases here : s.rest k with
  | nil => exact there.1
  | cons t ts => exact there.of_mem (here ▸ List.mem_cons_self)

theorem skipNewlines : Sim s S d b b e few P .line id Any Reader.skipNewlines Reader.skipNewlines := by
  intro k inside _ _
  obtain ⟨k', later, inside', rest, ran⟩ := skipNewlines_eq (b := b) (d := d) inside
  show Meets s S k d b e .line id Any (.ok ((), (s.rest k).dropWhile (isKind .newline))) _
  rw [rest, ran]
  exact .ok () trivial later inside' trivial

theorem counted {f : Nat → Reader β} {f' : Nat → Parse β} (next : ∀ n, Sim s S d b c e n P Q h L (f n) (f' n)) :
    Sim s S d b c e few P Q h L (Reader.left >>= f) (Reader.left >>= f') := by
  intro k inside _ known
  have counted : (Reader.left : Parse Nat) (s.state k b d) = some (.ok (s.left k), s.state k b d) := by
    rw [← Source.left_eq inside]
    rfl
  rw [Parser.bind_of_ok counted]
  exact next (s.left k) k inside (Nat.le_refl _) known

/-- The parser does something that readers need not do. -/
theorem lead {y : Parse Unit} {f' : Unit → Parse α} (first : Sim s S d b b' e few P R id Any (Pure.pure ()) y)
    (next : Sim s S d b' c e few R Q g K r (f' ())) : Sim s S d b c e few P Q g K r (y >>= f') := by
  rw [← pure_bind () fun _ => r]
  exact first.bind fun _ _ => next

theorem atEnd (there : s.Inside S) : Sim s S d b b e few .line .line id Any atEnd atEnd :=
  .peekThen there (.pure trivial) fun _ _ k inside fewer _ => pure (P := .line) trivial k inside fewer trivial

theorem exhausted (next : Sim s S d b c e 0 P Q g K r x) :
    Sim s S d b c e 0 P Q g K (Reader.exhausted r) (Reader.exhausted x) := by
  intro k inside fewer known
  have none : (s.state k b d).left = 0 := (Source.left_eq inside).trans (Nat.le_zero.1 fewer)
  have ran : Reader.exhausted x (s.state k b d) = x (s.state k b d) := by
    show (if (s.state k b d).left = 0 then x else crash) (s.state k b d) = _
    rw [none]
    rfl
  rw [ran]
  exact next k inside fewer known

end Sim

/-- The parser agrees with the readers. -/
def accord (there : s.Inside S) (b d : Nat) : Accord Reader Parse where
  place := id
  node := id
  Inside := S
  Alike few P Q g K r x := Sim s S d b b b few P Q g K r x
  known alike _ k inside fewer _ := alike k inside fewer trivial
  tight alike := alike
  loosen alike k inside fewer known := (alike k inside fewer known).later (Nat.le_refl k) fun _ _ => trivial
  given := Sim.pure
  bind := Sim.bind
  peekThen none some := .peekThen there none fun t => some t (fun _ => rfl)
  peekAt := Sim.peekAt
  placed := Sim.place there
  placeThen dark _ := (Sim.place there).bind dark
  advance := Sim.advanceDark
  advanceLine _ := Sim.advance fun ts => Nat.le_trans (List.sublist_cons_self _ ts).countP_le
  failThen complaint there k inside _ _ := .error ⟨complaint, _⟩ there (Nat.le_refl k) inside
  skipNewlines := Sim.skipNewlines
  counted := Sim.counted
  exhausted := Sim.exhausted

section Nested

variable {α : Type} {there : s.Inside S} {d b few : Nat} {g : α → α} {K : α → Prop} {r : Reader α} {x : Parse α}

/-- The counter of expressions is back where it was, whatever has come of the level inside. -/
theorem deeper_eq {k k' b' : Nat} {result : Except SyntaxError α} (room : d < maxNesting)
    (ran : x (s.state k b (d + 1)) = some (result, s.state k' b' (d + 1))) :
    deeper x (s.state k b d) = some (result, s.state k' b' d) := by
  unfold deeper
  refine (bind_of_ok (a := s.state k b d) rfl).trans ?_
  rw [if_neg (Nat.not_le.2 room : ¬ maxNesting ≤ (s.state k b d).exprDepth)]
  refine (bind_of_ok (a := ()) rfl).trans ((bind_of_ok (outcome_of ran)).trans ?_)
  cases result <;> rfl

theorem deeper_alike (room : d < maxNesting) (inner : ∀ few, (accord there b (d + 1)).Steady few g K r x) :
    (accord there b d).Steady few g K r (deeper x) := by
  intro k inside fewer known
  have ends := inner few k inside fewer known
  generalize ran' : x (s.state k b (d + 1)) = found' at ends
  generalize r s.last.location (s.rest k) = found at ends
  cases ends with
  | ok a holds later inside' _ =>
    rw [deeper_eq room ran']
    exact .ok a holds later inside' trivial
  | error err there later inside' =>
    rw [deeper_eq room ran']
    exact .error err there later inside'

theorem deeper_full (full : d = maxNesting) :
    (accord there b d).Steady few g K (fail (.tooDeep .expression)) (deeper x) := by
  intro k inside fewer known
  unfold deeper
  rw [bind_of_ok (a := s.state k b d) rfl, if_pos (Nat.le_of_eq full.symm : maxNesting ≤ (s.state k b d).exprDepth),
    ← bind_pure (fail (.tooDeep .expression))]
  exact Accord.Alike.failThen (A := accord there b d) _ k inside fewer known

theorem nested_accord (there : s.Inside S) (b : Nat) {n d : Nat} (levels : d + n = maxNesting) :
    (accord there b d).OnNested n (Reader.nested n) (nested (n + 1)) := by
  -- The counter goes up at every level: it and the levels left make up the limit.
  induction n generalizing d with
  | zero => exact ⟨fun _ => deeper_full levels, fun _ => deeper_full levels, fun _ => deeper_full levels,
      fun _ => deeper_full levels⟩
  | succ n ih =>
    have room : d < maxNesting := by omega
    have inner := ih (d := d + 1) (by omega)
    exact ⟨fun _ => deeper_alike room fun _ => .disjunction inner, fun _ => deeper_alike room fun _ => .negation inner,
      fun _ => deeper_alike room fun _ => .unary inner, fun _ => deeper_alike room fun _ => .typeClause inner⟩

end Nested

section Blocks

variable {there : s.Inside S} {k d b c e few : Nat}

theorem Sim.statementsUntil {stop : List Token → Bool} {stop' : Parse Bool} {one : Reader (List Stmt)}
    {one' : Parse (List Stmt)} {F : Stmt → Prop}
    (stops : ∀ k ≤ s.stop, stop' (s.state k b d) = some (.ok (stop (s.rest k)), s.state k b d))
    (takes : Takes 1 one) (first : ∀ few, Sim s S d b b e few .line .gap id (fun found => ∀ st ∈ found, F st) one one')
    {P : Spot} (n : Nat) {done : List Stmt} (before : ∀ st ∈ done, F st) :
    Sim s S d b b e n P .line id (fun found => ∀ st ∈ found, F st) (Reader.statementsUntil stop one n done)
      (statementsUntil stop' one' n done) := by
  -- By induction on the rounds. Each takes a token that counts, so that the bound still covers those left.
  induction n generalizing P done with
  | zero => exact Sim.exhausted (Sim.skipNewlines.bind fun _ _ => .pure before)
  | succ n ih =>
    intro k inside fewer _
    obtain ⟨k', later, inside', rest, ran⟩ := skipNewlines_eq (b := b) (d := d) inside
    have skipped : (Reader.skipNewlines : Reader Unit) s.last.location (s.rest k) = .ok ((), s.rest k') := by
      rw [← rest]
      rfl
    rw [Reader.statementsUntil, Parser.statementsUntil, Reader.bind_of_ok skipped, bind_of_ok ran,
      bind_of_ok (stops k' inside')]
    show Meets s S k d b e .line id _ ((if stop (s.rest k') then _ else _ : Reader _) _ (s.rest k')) _
    split
    · exact .ok done before later inside' trivial
    · have ends := first (s.left k') k' inside' (Nat.le_refl _) trivial
      generalize found : one s.last.location (s.rest k') = answer,
        found' : one' (s.state k' b d) = answer' at ends
      cases ends with
      | ok body fits later' inside'' =>
        have less : count (s.rest _) < count (s.rest k) := takes.count_lt (rest ▸ found)
        rw [Reader.bind_of_ok found, bind_of_ok found']
        have more := ih (P := .line) (List.forall_mem_append.2 ⟨before, fits⟩) _ inside''
          (Nat.le_of_lt_succ (Nat.lt_of_lt_of_le less fewer)) trivial
        exact more.later (Nat.le_trans later later') fun _ => id
      | error err there later' inside'' =>
        rw [Reader.bind_of_error found, bind_of_error found']
        exact .error err there (Nat.le_trans later later') inside''

theorem closes_eq (closing : List String) (inside : k ≤ s.stop) :
    closes closing (s.state k b d) =
      some (.ok (match s.rest k with | [] => true | t :: _ => closing.any t.isKeyword), s.state k b d) := by
  refine (bind_of_ok (peek_eq inside)).trans ?_
  cases s.rest k <;> rfl

/-- A look at the second token is enough to know a label. -/
theorem closesBranch_eq (inside : k ≤ s.stop) :
    closesBranch (s.state k b d) = some (.ok (match s.rest k with
      | [] => true
      | t :: _ => t.isKeyword "ENDCASE" || t.isKeyword "OTHERWISE" || startsLabel (s.rest k)), s.state k b d) := by
  refine (bind_of_ok (peek_eq inside)).trans ?_
  cases here : s.rest k with
  | nil => rfl
  | cons t ts =>
    obtain ⟨lt, -, rfl⟩ := Source.rest_cons here
    have second : (s.tokens[k + 1]?).any (·.isNumber) = (s.rest (k + 1)).head?.any (·.isNumber) := by
      cases next : s.rest (k + 1) with
      | nil =>
        have last : k + 1 = s.stop := Source.rest_nil lt next
        rw [last, s.found, Option.any_some, Token.isNumber, s.ends]
        rfl
      | cons u us => rw [(Source.rest_cons next).2.1, List.head?_cons]
    have label : startsLabel (t :: (s.tokens[k + 1]?).toList) = startsLabel (t :: s.rest (k + 1)) := by
      rw [startsLabel, startsLabel, ← second]
      cases s.tokens[k + 1]? <;> rfl
    show some (Except.ok (_ || startsLabel (t :: (s.tokens[k + 1]?).toList)), _) = _
    rw [label]

theorem enterBlock_sim {P : Spot} (room : b < maxNesting) :
    Sim s S d b (b + 1) e few P P id Any (pure ()) enterBlock := by
  intro k inside _ known
  have ran : enterBlock (s.state k b d) = some (.ok (), s.state k (b + 1) d) := by
    unfold enterBlock
    refine (bind_of_ok (a := s.state k b d) rfl).trans ?_
    rw [if_neg (Nat.not_le.2 room : ¬ maxNesting ≤ (s.state k b d).blockDepth)]
    rfl
  rw [ran]
  exact .ok () trivial (Nat.le_refl k) inside known

theorem enterBlock_full {α : Type} {g : α → α} {K : α → Prop} {P Q : Spot} {f : Unit → Parse α}
    (there : s.Inside S) (full : b = maxNesting) :
    Sim s S d b b b few P Q g K (fail (.tooDeep .block)) (enterBlock >>= f) := by
  intro k inside fewer _
  unfold enterBlock
  rw [bind_assoc, bind_of_ok (a := s.state k b d) rfl,
    if_pos (Nat.le_of_eq full.symm : maxNesting ≤ (s.state k b d).blockDepth), bind_assoc,
    ← bind_pure (fail (.tooDeep .block))]
  exact Accord.Alike.failThen (A := accord there b d) _ k inside fewer trivial

theorem leaveBlock_sim {P : Spot} : Sim s S d (b + 1) b e few P P id Any (pure ()) leaveBlock :=
  fun k inside _ known => .ok () trivial (Nat.le_refl k) inside known

/-- A statement that fails leaves the block that it stands in. -/
theorem guarded_sim {α : Type} {P Q : Spot} {K : α → Prop} {r : Reader α} {x : Parse α}
    (inner : Sim s S d (b + 1) (b + 1) (b + 1) few P Q id K r x) :
    Sim s S d (b + 1) (b + 1) b few P Q id K r (guarded x) := by
  intro k inside fewer known
  have ends := inner k inside fewer known
  generalize ran : x (s.state k (b + 1) d) = found' at ends
  generalize r s.last.location (s.rest k) = found at ends
  unfold guarded
  cases ends with
  | ok a holds later inside' known' =>
    rw [bind_of_ok (outcome_of ran)]
    exact .ok a holds later inside' known'
  | error err there later inside' =>
    rw [bind_of_ok (outcome_of ran)]
    exact .error err there later inside'

theorem movedBlock_id_eq : Stmt.movedBlock id = id := funext Stmt.movedBlock_id

/-- A statement in `b` blocks, with `n` levels of blocks left. -/
theorem statementAt_alike {n : Nat} (inner : (accord there b 0).OnBlocks n (Reader.blocks n) (blocks (n + 1))) :
    (accord there b 0).Alike few .line .gap id (fun found => ∀ st ∈ found, st.Fits S n)
      (statement (if b = 0 then .top else .inside) (Reader.blocks n)) (statementAt (blocks (n + 1))) := by
  have outer : (accord there b 0).OnNested maxNesting outermost outermost := nested_accord there b (Nat.zero_add _)
  rw [← movedBlock_id_eq]
  exact Accord.Alike.statement outer inner (if b = 0 then .top else .inside)

theorem blocks_accord (there : s.Inside S) {n b : Nat} (levels : b + n = maxNesting) :
    (accord there b 0).OnBlocks n (Reader.blocks n) (blocks (n + 1)) := by
  induction n generalizing b with
  | zero => exact ⟨fun _ _ => enterBlock_full there levels, fun _ => enterBlock_full there levels⟩
  | succ n ih =>
    have room : b < maxNesting := by omega
    have one (few : Nat) : Sim s S 0 (b + 1) (b + 1) b few .line .gap id (fun found => ∀ st ∈ found, st.Fits S n)
        (statement .inside (Reader.blocks n)) (guarded (statementAt (blocks (n + 1)))) :=
      guarded_sim (statementAt_alike (ih (b := b + 1) (by omega)))
    have takes := statement_takes .inside n
    refine ⟨fun few closing => ?_, fun few => ?_⟩ <;>
      rw [Accord.Block, show (accord there b 0).node = id from rfl, movedBlock_id_eq]
    · refine Sim.lead (enterBlock_sim room) (Sim.counted fun m => ?_)
      refine (Sim.statementsUntil (fun k => closes_eq closing) takes one m (List.forall_mem_nil _)).bind
        fun body fits => ?_
      refine (Sim.atEnd there).bind fun ended _ => ?_
      cases ended with
      | true => exact .lead leaveBlock_sim (Accord.Alike.expectedThen (A := accord there b 0) _)
      | false => exact .lead leaveBlock_sim (.pure (.of_forall fits))
    · refine Sim.lead (enterBlock_sim room) (Sim.counted fun m => ?_)
      rw [← bind_pure (Reader.statementsUntil _ _ m [])]
      refine (Sim.statementsUntil (fun k => closesBranch_eq) takes one m (List.forall_mem_nil _)).bind
        fun body fits => ?_
      exact .lead leaveBlock_sim (.pure (.of_forall fits))

/-- The parser reads what readers read from the tokens before the end of input. -/
theorem program_sim (there : s.Inside S) : Sim s S 0 0 0 0 few .gap .line id
    (fun p => ∀ st ∈ p.statements, st.Fits S maxNesting) Reader.program program := by
  have one (few : Nat) : Sim s S 0 0 0 0 few .line .gap id (fun found => ∀ st ∈ found, st.Fits S maxNesting)
      (statement .top (Reader.blocks maxNesting)) (statementAt (blocks (maxNesting + 1))) :=
    statementAt_alike (blocks_accord there (Nat.zero_add _))
  have takes := statement_takes .top maxNesting
  have ended (k : Nat) (inside : k ≤ s.stop) :
      (atEnd : Parse Bool) (s.state k 0 0) = some (.ok (s.rest k).isEmpty, s.state k 0 0) := by
    refine (bind_of_ok (peek_eq inside)).trans ?_
    cases s.rest k <;> rfl
  exact .counted fun n => (Sim.statementsUntil ended takes one n (List.forall_mem_nil _)).bind fun body fits =>
    Sim.pure (a := Program.mk body) fits

end Blocks

/-- Where one of these tokens stands that is no comment. -/
def Placed (ts : List Token) (l : Location) : Prop := ∃ t ∈ ts, t.kind ≠ .comment ∧ l = t.location

/-- A new parser stands at the front of what readers are given. Without an end of input, the input ends where the
last token stands. -/
theorem exists_source (ts : List Token) : ∃ s : Source, ofTokens ts = s.state 0 0 0 ∧
    TokenStream.ofTokens ts = ⟨s.rest 0, s.last.location⟩ ∧ (s.rest 0 = [] ∨ s.Inside (Placed ts)) := by
  have whole (before more : List Token) (last : Token) (others : ∀ t ∈ before, t.kind ≠ .endOfInput)
      (ends : last.kind = .endOfInput) : ∃ s : Source, s.tokens = (before ++ last :: more).toArray ∧
        s.rest 0 = before ∧ s.last = last :=
    ⟨⟨(before ++ last :: more).toArray, before.length, last, by simp, ends, by simpa using others⟩, rfl,
      by simp [Source.rest], rfl⟩
  have kept {t : Token} (mem : t ∈ ts.filter (·.kind != .comment)) : Placed ts t.location :=
    ⟨t, (List.mem_filter.1 mem).1, by simpa using (List.mem_filter.1 mem).2, rfl⟩
  unfold ofTokens TokenStream.ofTokens Source.state
  generalize ts.filter (·.kind != .comment) = us at kept
  dsimp only
  have parts := List.takeWhile_append_dropWhile (p := fun t : Token => t.kind != .endOfInput) (l := us)
  have others : ∀ t ∈ us.takeWhile (·.kind != .endOfInput), t.kind ≠ .endOfInput := by
    intro t mem
    simpa using List.all_eq_true.1 List.all_takeWhile t mem
  -- The parser gets an end of input behind the tokens; it is reached only if there is none among them.
  cases behind : us.dropWhile (·.kind != .endOfInput) with
  | cons last more =>
    have ends : last.kind = .endOfInput := by
      have head := List.head?_dropWhile_not (fun t : Token => t.kind != .endOfInput) us
      rw [behind] at head
      simpa using head
    rw [behind] at parts
    obtain ⟨s, tokens, rest, same⟩ := whole _ (more ++ closing us) last others ends
    refine ⟨s, ?_, by rw [rest, same]; rfl, .inr ?_⟩
    · rw [tokens, ← List.cons_append, ← List.append_assoc, parts]
    · exact ⟨kept (same ▸ parts ▸ List.mem_append_right _ List.mem_cons_self),
        fun t mem => kept (parts ▸ List.mem_append_left _ (rest ▸ mem))⟩
  | nil =>
    rw [behind, List.append_nil] at parts
    rw [parts] at others ⊢
    unfold closing
    cases final : us.getLast? with
    | none =>
      obtain ⟨s, tokens, rest, same⟩ := whole us [] ⟨.endOfInput, "", .none⟩ others rfl
      exact ⟨s, by rw [tokens], by rw [rest, same]; rfl, .inl (rest.trans (List.getLast?_eq_none_iff.1 final))⟩
    | some t =>
      obtain ⟨s, tokens, rest, same⟩ := whole us [] ⟨.endOfInput, "", t.location⟩ others rfl
      have mem := List.mem_of_getLast? final
      have other := others t mem
      refine ⟨s, by simp only [other, if_false, tokens], by rw [rest, same]; rfl, .inr ?_⟩
      refine ⟨?_, fun u inside => kept (rest ▸ inside)⟩
      rw [same]
      exact (kept mem :)

end Pseudocode.Parser

namespace Pseudocode

/-- Crashes never come up, so this is the program that the readers find, or their error. -/
theorem Program.ofTokens_eq (ts : List Token) :
    ofTokens ts = Prod.fst <$> (TokenStream.ofTokens ts).read Reader.program := by
  obtain ⟨s, parser, stream, -⟩ := Parser.exists_source ts
  have ends := Parser.program_sim s.inside_any 0 (Nat.zero_le _) (Nat.le_refl _) trivial
  rw [ofTokens, parser, stream]
  show _ = Prod.fst <$> Reader.program s.last.location (s.rest 0)
  generalize Reader.program s.last.location (s.rest 0) = found, Parser.program (s.state 0 0 0) = found' at ends
  cases ends <;> rfl

theorem Program.ofSource_eq {source : String} {ts : List Token} (lexed : tokenize source = .ok ts) :
    ofSource source = Prod.fst <$> (TokenStream.ofTokens ts).read Reader.program := by
  rw [ofSource, lexed]
  exact ofTokens_eq ts

end Pseudocode
