import Pseudocode.Proofs.Grammar.Reading
import Pseudocode.Proofs.Reading.Agreement

/-!
Two inputs read side by side. The second has the tokens of the first at other places, and behind the ends of
some lines it has an empty line more (`Parallel.Tokens`). Readers do the same with both, as far as places go
(`Parallel.accord`).
-/

namespace Pseudocode

/-- How the places of two inputs correspond. Trees of the second input stand where `node` says; the places
where its tokens stand and its errors are found are given by `place`, which may be other places only for the
ends of lines. -/
structure Parallel where
  place : Location → Location
  node : Location → Location
  finish : Location
  /-- Where the next token of the first input stands, and the end of the empty line before it in the second. -/
  Skips : Location → Location → Prop
  ends : place finish = node finish

namespace Parallel

open Reader

variable (C : Parallel)

def move (t : Token) : Token := { t with location := C.place t.location }

/-- Where the first of these tokens stands, or the input ends. -/
def next : List Token → Location
  | [] => C.finish
  | t :: _ => t.location

/-- Trees stand at tokens that are no ends of lines. -/
def Sure (t : Token) : Prop := t.kind ≠ .newline → C.place t.location = C.node t.location

inductive Tokens : List Token → List Token → Prop
  | nil : Tokens [] []
  | cons {t : Token} {ts ts' : List Token} : C.Sure t → Tokens ts ts' → Tokens (t :: ts) (C.move t :: ts')
  | blank {t n : Token} {ts ts' : List Token} :
    t.kind = .newline → n.kind = .newline → C.Skips (C.next ts) n.location → Tokens ts ts' →
      Tokens (t :: ts) (C.move t :: n :: ts')

/-- Behind the end of a line, where an empty line may come next. -/
inductive Loose : List Token → List Token → Prop
  | tight {ts ts' : List Token} : C.Tokens ts ts' → Loose ts ts'
  | blank {n : Token} {ts ts' : List Token} :
    n.kind = .newline → C.Skips (C.next ts) n.location → C.Tokens ts ts' → Loose ts (n :: ts')

def Inputs : Spot → List Token → List Token → Prop
  | .line, ts, ts' => C.Tokens ts ts'
  | .gap, ts, ts' => C.Loose ts ts'
  | .token t, ts, ts' => C.Tokens ts ts' ∧ ts.head? = some t

/-- The same error. A block that is nested too deeply may be found at the empty line before it. -/
inductive Errors : SyntaxError → SyntaxError → Prop
  | same (complaint : Complaint) (l : Location) : Errors ⟨complaint, l⟩ ⟨complaint, C.place l⟩
  | skipped {l l' : Location} : C.Skips l l' → Errors ⟨.tooDeep .block, l⟩ ⟨.tooDeep .block, l'⟩

/-- How reading ends on both sides: with results that `g` turns into each other, or with the same error. -/
inductive Results {α : Type} (Q : Spot) (g : α → α) (K : α → Prop) :
    Except SyntaxError (α × List Token) → Except SyntaxError (α × List Token) → Prop
  | ok {rest rest' : List Token} (a : α) : K a → C.Inputs Q rest rest' →
    Results Q g K (.ok (a, rest)) (.ok (g a, rest'))
  | error {e e' : SyntaxError} : C.Errors e e' → Results Q g K (.error e) (.error e')

/-- Reading inputs at `P` side by side leaves inputs at `Q`, and `K` holds of what is read. -/
def Follows {α : Type} (P Q : Spot) (g : α → α) (K : α → Prop) (r r' : Reader α) : Prop :=
  ∀ ts ts', C.Inputs P ts ts' → C.Results Q g K (r C.finish ts) (r' (C.place C.finish) ts')

variable {C} {α β : Type} {P Q R : Spot} {g : α → α} {h : β → β} {K : α → Prop} {L : β → Prop} {x x' : Reader α}
  {f f' : α → Reader β} {ts ts' : List Token}

theorem Tokens.count_eq (inputs : C.Tokens ts ts') : count ts' = count ts := by
  have line {t : Token} (feed : t.kind = .newline) (us : List Token) : count (t :: us) = count us :=
    List.countP_cons_of_neg (by simp [isKind, feed])
  induction inputs with
  | nil => rfl
  | @cons t ts ts' _ _ ih =>
    show List.countP _ _ = List.countP _ _
    rw [List.countP_cons, List.countP_cons]
    exact congrArg (· + _) ih
  | @blank t n ts ts' feed feed' _ _ ih =>
    have moved : (C.move t).kind = .newline := feed
    rw [line feed, line moved, line feed', ih]

theorem Inputs.count_eq (inputs : C.Inputs P ts ts') : count ts' = count ts := by
  cases P with
  | line => exact Tokens.count_eq inputs
  | token t => exact inputs.1.count_eq
  | gap =>
    cases inputs with
    | tight inputs => exact inputs.count_eq
    | blank feed _ inputs => exact (List.countP_cons_of_neg (by simp [isKind, feed])).trans inputs.count_eq

theorem Results.loosen {found found' : Except SyntaxError (α × List Token)} (ends : C.Results .line g K found found') :
    C.Results .gap g K found found' := by
  cases ends with
  | ok a holds rest => exact .ok a holds (Loose.tight rest)
  | error same => exact .error same

namespace Follows

theorem bind (first : C.Follows P Q g K x x') (next : ∀ a, K a → C.Follows Q R h L (f a) (f' (g a))) :
    C.Follows P R h L (x >>= f) (x' >>= f') := by
  intro ts ts' inputs
  have ends := first ts ts' inputs
  show C.Results R h L (Except.bind (x C.finish ts) fun p => f p.1 C.finish p.2)
    (Except.bind (x' (C.place C.finish) ts') fun p => f' p.1 (C.place C.finish) p.2)
  generalize x C.finish ts = found, x' (C.place C.finish) ts' = found' at ends
  cases ends with
  | ok a holds rest => exact next a holds _ _ rest
  | error same => exact .error same

theorem peekThen {f f' : Option Token → Reader β} (none : C.Follows .line Q h L (f none) (f' none))
    (some : ∀ t, C.Sure t → C.Follows (.token t) Q h L (f (some t)) (f' (some (C.move t)))) :
    C.Follows .line Q h L (peek >>= f) (peek >>= f') := by
  intro ts ts' inputs
  cases inputs with
  | nil => exact none [] [] .nil
  | cons sure later => exact some _ sure _ _ ⟨.cons sure later, rfl⟩
  | blank line line' skips later => exact some _ (absurd line) _ _ ⟨.blank line line' skips later, rfl⟩

theorem peekAt {f f' : Option Token → Reader β} {t : Token}
    (next : C.Follows (.token t) Q h L (f (some t)) (f' (some (C.move t)))) :
    C.Follows (.token t) Q h L (peek >>= f) (peek >>= f') := by
  rintro ts ts' ⟨inputs, here⟩
  cases inputs with
  | nil => cases here
  | cons sure later => cases here; exact next _ _ ⟨.cons sure later, rfl⟩
  | blank line line' skips later => cases here; exact next _ _ ⟨.blank line line' skips later, rfl⟩

theorem placed : C.Follows .line .line C.place Any Reader.place Reader.place := by
  intro ts ts' inputs
  cases inputs with
  | nil => exact .ok C.finish trivial Tokens.nil
  | cons sure later => exact .ok _ trivial (Tokens.cons sure later)
  | blank line line' skips later => exact .ok _ trivial (Tokens.blank line line' skips later)

theorem placeThen {f f' : Location → Reader β} (dark : ∀ l, C.Follows .line Q h L (f l) (f' (C.node l)))
    (line : ∀ t, t.kind = .newline → C.Follows (.token t) Q h L (f t.location) (f' (C.place t.location))) :
    C.Follows .line Q h L (Reader.place >>= f) (Reader.place >>= f') := by
  intro ts ts' inputs
  cases inputs with
  | nil =>
    have last := dark C.finish
    rw [← C.ends] at last
    exact last [] [] .nil
  | @cons t ts ts' sure later =>
    show C.Results Q h L (f t.location C.finish (t :: ts))
      (f' (C.place t.location) (C.place C.finish) (C.move t :: ts'))
    by_cases feed : t.kind = .newline
    · exact line t feed _ _ ⟨.cons sure later, rfl⟩
    · rw [sure feed]
      exact dark t.location _ _ (.cons sure later)
  | blank feed feed' skips later => exact line _ feed _ _ ⟨.blank feed feed' skips later, rfl⟩

theorem advance {f f' : Unit → Reader β} {t : Token} (dark : t.kind ≠ .newline)
    (next : C.Follows .line Q h L (f ()) (f' ())) :
    C.Follows (.token t) Q h L (Reader.advance >>= f) (Reader.advance >>= f') := by
  rintro ts ts' ⟨inputs, here⟩
  cases inputs with
  | nil => cases here
  | cons _ later => cases here; exact next _ _ later
  | blank line => cases here; exact absurd line dark

theorem advanceLine {f f' : Unit → Reader β} {t : Token} (next : C.Follows .gap Q h L (f ()) (f' ())) :
    C.Follows (.token t) Q h L (Reader.advance >>= f) (Reader.advance >>= f') := by
  rintro ts ts' ⟨inputs, here⟩
  cases inputs with
  | nil => cases here
  | cons _ later => cases here; exact next _ _ (.tight later)
  | blank _ line' skips later => cases here; exact next _ _ (.blank line' skips later)

/-- Behind all ends of lines, the two inputs are together again. -/
theorem skipNewlines : C.Follows .gap .line id Any skipNewlines skipNewlines := by
  have strip {ts ts' : List Token} (inputs : C.Tokens ts ts') :
      C.Tokens (ts.dropWhile (isKind .newline)) (ts'.dropWhile (isKind .newline)) := by
    induction inputs with
    | nil => exact .nil
    | @cons t ts ts' sure later ih =>
      have kinds : isKind .newline (C.move t) = isKind .newline t := rfl
      rw [List.dropWhile_cons, List.dropWhile_cons, kinds]
      split
      · exact ih
      · exact .cons sure later
    | @blank t n ts ts' line line' _ _ ih =>
      have here : isKind .newline t = true := by simp [isKind, line]
      have here' : isKind .newline n = true := by simp [isKind, line']
      have kinds : isKind .newline (C.move t) = true := here
      rwa [List.dropWhile_cons_of_pos here, List.dropWhile_cons_of_pos kinds, List.dropWhile_cons_of_pos here']
  intro ts ts' inputs
  cases inputs with
  | tight inputs => exact .ok () trivial (strip inputs)
  | @blank n ts ts' line _ inputs =>
    have here : isKind .newline n = true := by simp [isKind, line]
    show C.Results _ _ _ _ (.ok ((), (n :: ts').dropWhile (isKind .newline)))
    rw [List.dropWhile_cons_of_pos here]
    exact .ok () trivial (strip inputs)

/-- An empty line more is no token more. -/
theorem counted {f f' : Nat → Reader β} (next : ∀ n, C.Follows P Q h L (f n) (f' n)) :
    C.Follows P Q h L (left >>= f) (left >>= f') := by
  intro ts ts' inputs
  show C.Results Q h L (f (count ts) C.finish ts) (f' (count ts') (C.place C.finish) ts')
  rw [inputs.count_eq]
  exact next _ ts ts' inputs

end Follows

/-- Readers do the same with both inputs. -/
def accord (C : Parallel) : Accord Reader Reader where
  place := C.place
  node := C.node
  Inside _ := True
  Alike _ P Q g K r r' := C.Follows P Q g K r r'
  known alike _ ts ts' inputs := alike ts ts' inputs.1
  tight alike ts ts' inputs := alike ts ts' (.tight inputs)
  loosen alike ts ts' inputs := (alike ts ts' inputs).loosen
  given holds _ _ inputs := .ok _ holds inputs
  bind := Follows.bind
  peekThen none some := .peekThen none fun t sure => some t sure trivial
  peekAt := Follows.peekAt
  placed := Follows.placed
  placeThen dark line := .placeThen (fun l => dark l trivial) line
  advance := Follows.advance
  advanceLine _ := Follows.advanceLine
  failThen complaint _ _ _ _ := .error (.same complaint _)
  skipNewlines := Follows.skipNewlines
  counted := Follows.counted
  exhausted alike := alike

end Parallel

end Pseudocode
