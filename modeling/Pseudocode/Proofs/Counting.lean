import Mathlib.Control.Monad.Basic
import Pseudocode.Proofs.Lifetime.Naming
import Pseudocode.Proofs.Lifetime.Runs
import Pseudocode.Proofs.Memory.Atomicity

/-!
Counting loops (`counting_advances`). The header is evaluated once, and finds the cell of the counter. Each pass
tests the number in that cell; behind its body the number is moved on, but in the cell that the name of the
counter stands for by then. In a callable that counts in a global variable this is another cell once the body
has declared the name, and then the number that is tested stands still.
-/

namespace Pseudocode

open Exec Semantics

variable {σ : Type} {α : Type}

/-- The number in a cell. -/
def Machine.number? (m : Machine σ) (cell : CellId) : Option Float :=
  match (m.scopes.cell? cell).bind (·.value) with
  | some (.number x) => some x
  | _ => none

/-- A counting loop whose header has been evaluated: what the counter is called, where its number is tested, and
the numbers that the header has given. -/
structure Count where
  name : String
  line : Nat
  cell : CellId
  first : Float
  last : Float
  step : Float
deriving DecidableEq

namespace Count

/-- Whether another pass begins at a number. -/
def continues (c : Count) (x : Float) : Bool := if 0 < c.step then x ≤ c.last else c.last ≤ x

/-- The number that follows one. -/
def next (c : Count) (x : Float) : Float := x + Number.floor c.step

/-- The numbers in turn. -/
def value (c : Count) : Nat → Float
  | 0 => Number.floor c.first
  | k + 1 => c.next (c.value k)

def evalStep (ctx : Context σ) (line : Nat) : Option Expr → Exec σ Float
  | some e => evalNumber ctx "FOR STEP" line e
  | none => pure 1

/-- Evaluates the header, finds the counter and gives it the first number. -/
def header (ctx : Context σ) (name : String) (start stop : Expr) (step : Option Expr) (line : Nat) :
    Exec σ Count := do
  let first ← evalNumber ctx "FOR start value" line start
  let last ← evalNumber ctx "FOR end value" line stop
  let step ← evalStep ctx line step
  if step == 0 then fail .zeroStep line
  else
    let cell ← counterCell name line
    assignVariable name (.number (Number.floor first)) line
    pure { name, line, cell, first, last, step }

def read (c : Count) : Exec σ Float := counterValue c.cell c.name c.line

def advance (c : Count) (x : Float) : Exec σ Unit := assignVariable c.name (.number (c.next x)) c.line

/-- The passes of the loop, of which `n` may still begin. -/
def passes (c : Count) (config : Config) (body : Exec σ Flow) (n : Nat) : Exec σ Flow :=
  forPasses config c.read c.continues c.advance body c.line n

/-- The name of the counter stands for the cell that is tested. -/
def Stands (c : Count) (m : Machine σ) : Prop := m.scopes.lookup? m.scopes.current c.name = some c.cell

instance (c : Count) (m : Machine σ) : Decidable (c.Stands m) :=
  inferInstanceAs (Decidable (_ = _))

end Count

/-- A loop is its header and then its passes, which do not evaluate the header again. -/
theorem Exec.forLoop_eq (ctx : Context σ) (name : String) (start stop : Expr) (step : Option Expr)
    (body : Exec σ Flow) (line : Nat) :
    forLoop ctx name start stop step body line = (do
      let c ← Count.header ctx name start stop step line
      c.passes ctx.config body (← passesLeft ctx.config)) := by
  simp only [forLoop, Count.header, bind_assoc]
  refine bind_congr fun first => bind_congr fun last => ?_
  cases step with
  | none | some e =>
    refine bind_congr fun step => ?_
    cases step == 0 with
    | true => rfl
    | false =>
      simp only [Bool.false_eq_true, if_false, bind_assoc, pure_bind]
      rfl

theorem Exec.counterValue_cases (cell : CellId) (name : String) (line : Nat) (m : Machine σ) :
    (∃ x, m.number? cell = some x ∧ counterValue cell name line m = .ok x m) ∨
      ∃ e, m.number? cell = none ∧ counterValue cell name line m = .error e m := by
  unfold counterValue Machine.number?
  rw [get_bind]
  rcases (m.scopes.cell? cell).bind (·.value) with _ | (x | _ | _ | _ | _)
  · exact .inr ⟨_, rfl, rfl⟩
  · exact .inl ⟨x, rfl, rfl⟩
  all_goals exact .inr ⟨_, rfl, rfl⟩

theorem Count.read_of_number {c : Count} {m : Machine σ} {x : Float} (reads : m.number? c.cell = some x) :
    c.read m = .ok x m := by
  rcases counterValue_cases c.cell c.name c.line m with ⟨y, reads', read⟩ | ⟨e, none, -⟩
  · cases reads.symm.trans reads'
    exact read
  · cases reads.symm.trans none

theorem Count.read_of_no_number {c : Count} {m : Machine σ} (none : m.number? c.cell = none) :
    ∃ e, c.read m = .error e m := by
  rcases counterValue_cases c.cell c.name c.line m with ⟨y, reads, -⟩ | ⟨e, -, failed⟩
  · cases none.symm.trans reads
  · exact ⟨e, failed⟩

/-- The states of one pass, before its test, behind its body and when the counter has been moved on, and the
numbers in the cell that is tested: the one that was tested, and the one that the body has left. -/
structure Pass (σ : Type) where
  before : Machine σ
  tested : Float
  after : Machine σ
  left : Float
  next : Machine σ

namespace Count

variable (c : Count) (config : Config) (body : Exec σ Flow)

/-- A pass begins with a number. -/
structure Begins (m : Machine σ) (x : Float) (m₁ : Machine σ) : Prop where
  reads : m.number? c.cell = some x
  continues : c.continues x = true
  counted : tick config c.line m = .ok () m₁

/-- A pass is complete: its body has ended normally, and the counter has been moved on. -/
structure Completes (q : Pass σ) : Prop where
  begins : ∃ m₁, c.Begins config q.before q.tested m₁ ∧ body m₁ = .ok .normal q.after
  left : q.after.number? c.cell = some q.left
  advances : c.advance q.left q.after = .ok () q.next

/-- Complete passes that follow each other. -/
inductive Goes : Machine σ → List (Pass σ) → Machine σ → Prop
  | start (m : Machine σ) : Goes m [] m
  | pass {q : Pass σ} {qs : List (Pass σ)} {m : Machine σ} :
    c.Completes config body q → Goes q.next qs m → Goes q.before (q :: qs) m

/-- How a loop ends behind its last complete pass. It is over when the test fails; otherwise the counter has no
number, there is no room for a pass, or a pass begins that is not completed. -/
inductive Ends (m : Machine σ) : EStateM.Result RuntimeError (Machine σ) Flow → Prop
  | over {x : Float} : m.number? c.cell = some x → c.continues x = false → Ends m (.ok .normal m)
  | untestable {e : RuntimeError} : c.read m = .error e m → Ends m (.error e m)
  | exhausted {x : Float} : m.number? c.cell = some x → c.continues x = true →
    Ends m (.error ⟨.iterationLimit config.maxIterations, c.line⟩ { m with iterations := m.iterations + 1 })
  | fails {x : Float} {m₁ m' : Machine σ} {e : RuntimeError} : c.Begins config m x m₁ →
    body m₁ = .error e m' → Ends m (.error e m')
  | leaves {x : Float} {m₁ m' : Machine σ} {flow : Flow} : c.Begins config m x m₁ →
    body m₁ = .ok flow m' → flow ≠ .normal → Ends m (.ok flow m')
  | unreadable {x : Float} {m₁ m₂ : Machine σ} {e : RuntimeError} : c.Begins config m x m₁ →
    body m₁ = .ok .normal m₂ → c.read m₂ = .error e m₂ → Ends m (.error e m₂)
  | refused {x y : Float} {m₁ m₂ m' : Machine σ} {e : RuntimeError} : c.Begins config m x m₁ →
    body m₁ = .ok .normal m₂ → m₂.number? c.cell = some y → c.advance y m₂ = .error e m' → Ends m (.error e m')

/-- The test: the loop ends, or there is a number that goes on. -/
theorem passes_test (n : Nat) (m : Machine σ) :
    c.Ends config body m (c.passes config body n m) ∨
      ∃ x, m.number? c.cell = some x ∧ c.continues x = true := by
  cases reads : m.number? c.cell with
  | none =>
    obtain ⟨e, failed⟩ := read_of_no_number reads
    have ended : c.passes config body n m = .error e m := by
      cases n with
      | zero | succ => exact bind_of_error failed
    exact .inl (ended ▸ .untestable failed)
  | some x =>
    cases more : c.continues x with
    | true => exact .inr ⟨x, rfl, more⟩
    | false =>
      have stop : ¬ c.continues x = true := by simp [more]
      have ended : c.passes config body n m = .ok .normal m := by
        cases n with
        | zero | succ => exact (bind_of_ok (read_of_number reads)).trans (by rw [if_neg stop]; rfl)
      exact .inl (ended ▸ .over reads more)

/-- The end of a pass whose body has ended normally. -/
theorem passes_advance {m m₁ m₂ : Machine σ} {x : Float} (begins : c.Begins config m x m₁)
    (ran : body m₁ = .ok .normal m₂) (n : Nat) :
    c.Ends config body m ((do c.advance (← c.read); c.passes config body n) m₂) ∨
      ∃ q, q.before = m ∧ c.Completes config body q ∧
        (do c.advance (← c.read); c.passes config body n) m₂ = c.passes config body n q.next := by
  cases left : m₂.number? c.cell with
  | none =>
    obtain ⟨e, failed⟩ := read_of_no_number left
    rw [bind_of_error failed]
    exact .inl (.unreadable begins ran failed)
  | some y =>
    rw [bind_of_ok (read_of_number left)]
    cases advanced : c.advance y m₂ with
    | error e m' =>
      rw [bind_of_error advanced]
      exact .inl (.refused begins ran left advanced)
    | ok _ m' =>
      rw [bind_of_ok advanced]
      exact .inr ⟨⟨m, x, m₂, y, m'⟩, rfl, ⟨⟨m₁, begins, ran⟩, left, advanced⟩, rfl⟩

/-- One pass: it is completed and the loop goes on, or the loop ends. -/
theorem passes_step (n : Nat) (m : Machine σ) :
    c.Ends config body m (c.passes config body (n + 1) m) ∨
      ∃ q, q.before = m ∧ c.Completes config body q ∧
        c.passes config body (n + 1) m = c.passes config body n q.next := by
  rcases c.passes_test config body (n + 1) m with ends | ⟨x, reads, more⟩
  · exact .inl ends
  · have tested : c.passes config body (n + 1) m = (do
        tick config c.line
        let flow ← body
        Exec.followedBy flow do
          c.advance (← c.read)
          c.passes config body n) m :=
      (bind_of_ok (read_of_number reads)).trans (by rw [if_pos more]; rfl)
    rw [tested]
    have ticked := tick_eq config c.line m
    split at ticked
    · rw [bind_of_error ticked]
      exact .inl (.exhausted reads more)
    · have begins : c.Begins config m x _ := ⟨reads, more, ticked⟩
      rw [bind_of_ok ticked]
      cases ran : body { m with iterations := m.iterations + 1 } with
      | error e m₂ =>
        rw [bind_of_error ran]
        exact .inl (.fails begins ran)
      | ok flow m₂ =>
        rw [bind_of_ok ran]
        cases flow with
        | normal => exact c.passes_advance config body begins ran n
        | halt => exact .inl (.leaves begins ran Flow.normal_ne_halt.symm)
        | returned v => exact .inl (.leaves begins ran nofun)

/-- Every run of a loop consists of complete passes and its end. -/
theorem passes_run (n : Nat) (m : Machine σ) :
    ∃ qs m', c.Goes config body m qs m' ∧ c.Ends config body m' (c.passes config body n m) := by
  induction n generalizing m with
  | zero =>
    refine ⟨[], m, .start m, ?_⟩
    rcases c.passes_test config body 0 m with ends | ⟨x, reads, more⟩
    · exact ends
    · have ended : c.passes config body 0 m =
          .error ⟨.iterationLimit config.maxIterations, c.line⟩ { m with iterations := m.iterations + 1 } :=
        (bind_of_ok (read_of_number reads)).trans (by rw [if_pos more]; rfl)
      exact ended ▸ .exhausted reads more
  | succ n ih =>
    rcases c.passes_step config body n m with ends | ⟨q, rfl, completes, goesOn⟩
    · exact ⟨[], m, .start m, ends⟩
    · obtain ⟨qs, m', goes, ends⟩ := ih q.next
      exact ⟨q :: qs, m', .pass completes goes, goesOn ▸ ends⟩

end Count

/-- A number that is stored by name arrives in a cell if the name stands for it. -/
theorem Machine.VariableStored.number?_eq {name : String} {x : Float} {m m' : Machine σ}
    (stored : m.VariableStored name (.number x) m') (cell : CellId) :
    m'.number? cell =
      if m.scopes.lookup? m.scopes.current name = some cell then some x else m.number? cell := by
  obtain ⟨d, v, found, now, -, same⟩ := stored
  rw [(Machine.find?_eq_some.1 found).1]
  by_cases here : d = cell
  · subst here
    simp [Machine.number?, now]
  · rw [if_neg fun both => here (Option.some.inj both), Machine.number?, same.cell cell (Ne.symm here)]
    rfl

theorem Machine.VariableStored.owns {name : String} {x : Value} {m m' : Machine σ}
    (stored : m.VariableStored name x m') (n : String) : m'.scopes.Owns n ↔ m.scopes.Owns n := by
  obtain ⟨_, _, -, -, -, same⟩ := stored
  obtain ⟨_, _, _, -, rfl⟩ := same.rest
  exact .rfl

namespace Count

open Memory

/-- A step has ended in a later state, and variables are still named as long as they have an address. -/
def Follows (m m' : Machine σ) : Prop := m'.memory.Lifetimes ∧ naming.Later m.memory m'.memory

variable {c : Count} {config : Config} {body : Exec σ Flow} {m m' : Machine σ}

theorem Follows.trans {a b d : Machine σ} (first : Follows a b) (next : Follows b d) : Follows a d :=
  ⟨next.1, naming.trans first.2 next.2⟩

/-- The steps of a run keep variables named. -/
theorem follows_of_ok {Q : Machine σ → α → Prop} {x : Exec σ α} {a : α}
    (keeps : Keeps (naming.comap Machine.memory) (Lifetimes ·.memory) m Q x) (inv : m.memory.Lifetimes)
    (ran : x m = .ok a m') : Follows m m' := by
  have ended := keeps inv
  rw [ran] at ended
  exact ended.1

theorem Follows.assignVariable {name : String} {x : Float} {line : Nat} (inv : m.memory.Lifetimes)
    (stored : Exec.assignVariable name (.number x) line m = .ok () m') :
    Follows m m' ∧ m.VariableStored name (.number x) m' := by
  have atomic := assignVariable_atomic inv.mirrors name (.number x) line
  rw [stored] at atomic
  exact ⟨follows_of_ok (Lifetimes.keepNames.memoryRelated.assignVariable name line trivial) inv stored, atomic⟩

theorem Follows.tick {line : Nat} (inv : m.memory.Lifetimes) (ticked : Exec.tick config line m = .ok () m') :
    Follows m m' := by
  rw [tick_eq] at ticked
  split at ticked
  · cases ticked
  · cases ticked
    exact ⟨inv, naming.refl _⟩

/-- The name of the counter stands for the cell that is tested as before, unless the innermost scope has got
the name. -/
theorem Stands.later (stands : c.Stands m) (inv : m.memory.Lifetimes) (follows : Follows m m') :
    c.Stands m' ↔ (m'.scopes.Owns c.name → m.scopes.Owns c.name) := by
  obtain ⟨d, found, same⟩ := inv.lookup_later follows.1 follows.2 stands
  have found : m'.scopes.lookup? m'.scopes.current c.name = some d := found
  rw [Stands, found, Option.some.injEq]
  exact same

section Header

variable {host : Host σ} {definitions : List (Definition Stmt)} {frames : Nat}

theorem evalStep_ofExec (ctx : Context σ) (line : Nat) (step : Option Expr) :
    (ofExec ctx).evalStep ctx line step = evalStep ctx line step := by
  cases step with
  | none => rfl
  | some e => exact evalNumber_ofExec ctx _ line e

/-- When the header has been evaluated, the counter holds the first number in the cell that is tested. -/
theorem header_ok {name : String} {start stop : Expr} {step : Option Expr} {line : Nat}
    (inv : m.memory.Lifetimes)
    (ran : header (runContext host config definitions frames) name start stop step line m = .ok c m') :
    m'.memory.Lifetimes ∧ c.name = name ∧ c.Stands m' ∧ m'.number? c.cell = some (c.value 0) := by
  have related := Kept.related
    (fun frames => Lifetimes.keepNames.kept (runContext host config definitions frames)) frames
  obtain ⟨first, m₁, started, ran⟩ := bind_eq_ok ran
  have inv₁ := (follows_of_ok (related.evalNumber m _ line start) inv (evalNumber_ofExec _ _ _ _ ▸ started)).1
  obtain ⟨last, m₂, stopped, ran⟩ := bind_eq_ok ran
  have inv₂ := (follows_of_ok (related.evalNumber m₁ _ line stop) inv₁ (evalNumber_ofExec _ _ _ _ ▸ stopped)).1
  obtain ⟨increment, m₃, stepped, ran⟩ := bind_eq_ok ran
  have inv₃ := (follows_of_ok (related.evalStep m₂ line step) inv₂ (evalStep_ofExec _ _ _ ▸ stepped)).1
  split at ran
  · cases ran
  · obtain ⟨cell, m₄, found, ran⟩ := bind_eq_ok ran
    obtain ⟨_, m₅, stored, ended⟩ := bind_eq_ok ran
    cases ended
    have looked := Acts.counterCell (V := fun _ => True) (m := m₃) name line
    rw [found] at looked
    have inv₄ := (follows_of_ok (Lifetimes.keepNames.memoryRelated.counterCell name line) inv₃ found).1
    obtain ⟨follows, atomic⟩ := Follows.assignVariable inv₄ stored
    have stands : Stands ⟨name, line, cell, first, last, increment⟩ m₄ := looked.2
    exact ⟨follows.1, rfl, (stands.later inv₄ follows).2 (atomic.owns name).1,
      (atomic.number?_eq cell).trans (if_pos stands)⟩

end Header

/-- In the main program the counter is a variable of the innermost scope. -/
theorem Stands.owns (stands : c.Stands m) (inv : m.memory.Lifetimes) (outermost : m.scopes.depth = 1) :
    m.scopes.Owns c.name := by
  have top : m.scopes.current = globalScope := congrArg (· - 1) outermost
  rcases Scopes.names_of_lookup? inv.flat stands with named | named
  · exact ⟨c.cell, named⟩
  · exact ⟨c.cell, top ▸ named⟩

section Passes

variable {Q : Machine σ → Flow → Prop} {q : Pass σ} {qs : List (Pass σ)}
  (onBody : ∀ m, Keeps (naming.comap Machine.memory) (Lifetimes ·.memory) m Q body)

/-- The number that is tested next is the one that follows what the body has left, if the name of the counter
still stands for the cell, and else what the body has left. -/
theorem Completes.number (completes : c.Completes config body q) (inv : q.after.memory.Lifetimes) :
    q.next.number? c.cell = some (if c.Stands q.after then c.next q.left else q.left) := by
  obtain ⟨-, stored⟩ := Follows.assignVariable inv completes.advances
  rw [stored.number?_eq, completes.left]
  exact (apply_ite some _ _ _).symm

include onBody

/-- One pass keeps variables named. -/
theorem Completes.follows (completes : c.Completes config body q) (inv : q.before.memory.Lifetimes) :
    Follows q.before q.after ∧ Follows q.after q.next := by
  obtain ⟨m₁, begins, ran⟩ := completes.begins
  have ticked := Follows.tick inv begins.counted
  have ended := ticked.trans (follows_of_ok (onBody m₁) ticked.1 ran)
  exact ⟨ended, (Follows.assignVariable ended.1 completes.advances).1⟩

/-- So do the passes of a loop. -/
theorem Goes.follows (goes : c.Goes config body m qs m') (inv : m.memory.Lifetimes) :
    ∀ q ∈ qs, Follows m q.after ∧ c.Completes config body q := by
  induction goes with
  | start m => exact fun q among => absurd among List.not_mem_nil
  | pass completes _ ih =>
    obtain ⟨ended, advanced⟩ := completes.follows onBody inv
    refine List.forall_mem_cons.2 ⟨⟨ended, completes⟩, fun q among => ?_⟩
    obtain ⟨later, completes'⟩ := ih advanced.1 q among
    exact ⟨(ended.trans advanced).trans later, completes'⟩

end Passes

/-- If each pass moves the number on that it tested, then the numbers are tested in turn. -/
theorem Goes.tested {qs : List (Pass σ)} (goes : c.Goes config body m qs m')
    (steady : ∀ q ∈ qs, q.next.number? c.cell = some (c.next q.tested)) {k : Nat}
    (begun : m.number? c.cell = some (c.value k)) :
    qs.map (·.tested) = (List.range' k qs.length).map c.value ∧
      m'.number? c.cell = some (c.value (k + qs.length)) := by
  induction goes generalizing k with
  | start m => exact ⟨rfl, begun⟩
  | @pass q qs m completes _ ih =>
    obtain ⟨next, rest⟩ := List.forall_mem_cons.1 steady
    obtain ⟨m₁, begins, -⟩ := completes.begins
    have here : q.tested = c.value k := Option.some.inj (begins.reads.symm.trans begun)
    obtain ⟨values, last⟩ := ih rest (k := k + 1) (by rw [next, here]; rfl)
    refine ⟨?_, ?_⟩
    · rw [List.map_cons, List.length_cons, List.range'_succ, List.map_cons, here, values]
    · rw [last, List.length_cons, Nat.add_right_comm, Nat.add_assoc]

end Count

theorem Exec.eq_ok_of_outcome {r : EStateM.Result RuntimeError (Machine σ) α} {a : α}
    (given : outcome r = .ok a) : r = .ok a (final r) :=
  result_ext given rfl

/-- Whether the next statement follows. -/
def Flow.isNormal : Flow → Bool
  | .normal => true
  | _ => false

theorem Exec.eq_normal_of_outcome {r : EStateM.Result RuntimeError (Machine σ) Flow}
    (given : (outcome r).map Flow.isNormal = .ok true) : r = .ok .normal (final r) := by
  rcases r with ⟨_ | _ | _, m⟩ | ⟨e, m⟩ <;> cases given
  rfl

/-- A counting loop evaluates its header once, and then its passes follow. The counter holds the floor of the
first number before the first test; in the main program it is a variable of the innermost scope. However far a
loop gets, it consists of complete passes and an end, which is normal only when a test fails. The number that is
tested behind a complete pass is the sum of what the body has left in the cell and the floor of the step, as
long as the counter's name stands for the cell; it does until the innermost scope has got the name since the
header, and then the number stays what the body has left. So if no body changes the number or declares the
name, the numbers that are tested are the first, and from each the next, in turn. -/
theorem counting_advances {p : Program} {host : Host σ} {config : Config} {draws : Draws} {state : σ}
    {m₀ : Machine σ} (reached : Reachable p host config draws state m₀) (frames : Nat) (access : Access)
    (name : String) (start stop : Expr) (step : Option Expr) (sts : List Stmt) (l : Location) :
    let ctx := runContext host config p.definitions frames
    let st := Stmt.forTo name start stop step sts l
    let body := Exec.execBlock ctx access sts
    (Exec.execStmt ctx access st = do
      if ← interrupted ctx access st then pure .halt
      else
        let c ← Count.header ctx name start stop step l.line
        c.passes config body (← passesLeft config)) ∧
    ∀ m₁ c m₂, interrupted ctx access st m₀ = .ok false m₁ →
      Count.header ctx name start stop step l.line m₁ = .ok c m₂ →
        m₂.number? c.cell = some (c.value 0) ∧
        (m₂.scopes.depth = 1 → m₂.scopes.Owns name) ∧
        (∀ n, ∃ qs m₃, c.Goes config body m₂ qs m₃ ∧ c.Ends config body m₃ (c.passes config body n m₂)) ∧
        ∀ qs m₃, c.Goes config body m₂ qs m₃ →
          (∀ q ∈ qs, (c.Stands q.after ↔ (q.after.scopes.Owns name → m₂.scopes.Owns name)) ∧
            q.next.number? c.cell = some (if c.Stands q.after then c.next q.left else q.left)) ∧
          ((∀ q ∈ qs, q.left = q.tested ∧ (q.after.scopes.Owns name → m₂.scopes.Owns name)) →
            qs.map (·.tested) = (List.range qs.length).map c.value ∧
              m₃.number? c.cell = some (c.value qs.length)) := by
  intro ctx st body
  have kept (frames : Nat) := Memory.Lifetimes.keepNames.kept (runContext host config p.definitions frames)
  have onBody (m : Machine σ) := (Kept.related kept frames).execBlock (rfl : access = access) m sts
  rw [execBlock_ofExec] at onBody
  refine ⟨?_, fun m₁ c m₂ began ran => ?_⟩
  · rw [Exec.execStmt]
    simp only [Exec.forLoop_eq]
    rfl
  · have inv₀ : m₀.memory.Lifetimes := (Memory.Lifetimes.keepNames.kept _).reachable (.initial _) reached
    have inv₁ := (Count.follows_of_ok ((kept frames).steps.interrupted rfl st) inv₀ began).1
    obtain ⟨inv, rfl, stands, first⟩ := Count.header_ok inv₁ ran
    refine ⟨first, stands.owns inv, fun n => c.passes_run config body n m₂, fun qs m₃ goes => ?_⟩
    have pass (q : Pass σ) (among : q ∈ qs) : (c.Stands q.after ↔
        (q.after.scopes.Owns c.name → m₂.scopes.Owns c.name)) ∧
        q.next.number? c.cell = some (if c.Stands q.after then c.next q.left else q.left) := by
      obtain ⟨follows, completes⟩ := goes.follows onBody inv q among
      exact ⟨stands.later inv follows, completes.number follows.1⟩
    refine ⟨pass, fun steady => ?_⟩
    have tested := goes.tested (k := 0) (fun q among => ?_) first
    · rwa [← List.range_eq_range', Nat.zero_add] at tested
    · obtain ⟨same, unhidden⟩ := steady q among
      obtain ⟨still, number⟩ := pass q among
      rw [number, if_pos (still.2 unhidden), same]

/-- Two variables, one to count in. -/
def declareCounter : Program where
  statements := [.declare "i" .integer ⟨1, 1⟩, .declare "k" .integer ⟨2, 1⟩]

/-- The variable is moved on by the floor of the step. -/
theorem declareCounter_advanced :
    let config : Config := { arenaSize := 1030 }
    let ctx : Context Script := runContext Script.host config declareCounter.definitions 0
    let start := Expr.literal (.number 1) ⟨3, 7⟩
    let stop := Expr.literal (.number 3) ⟨3, 12⟩
    let step := Expr.literal (.number 2.5) ⟨3, 19⟩
    let sts := [Stmt.assign (.identifier "k" ⟨4, 3⟩) (.identifier "i" ⟨4, 7⟩) ⟨4, 3⟩]
    ∃ m₀ m₁ m₂ c q, Reachable declareCounter Script.host config 0 {} m₀ ∧
      interrupted ctx .granted (.forTo "i" start stop (some step) sts ⟨3, 1⟩) m₀ = .ok false m₁ ∧
      Count.header ctx "i" start stop (some step) 3 m₁ = .ok c m₂ ∧ q.before = m₂ ∧
      c.Completes config (Exec.execBlock ctx .granted sts) q ∧ q.tested = 1 ∧ q.next.number? c.cell = some 3 := by
  intro config ctx start stop step sts
  let c : Count := ⟨"i", 3, 0, 1, 3, 2.5⟩
  let m₀ := final (declareCounter.exec Script.host config (.initial config 0 {}))
  let m₁ := final (interrupted ctx .granted (.forTo "i" start stop (some step) sts ⟨3, 1⟩) m₀)
  let m₂ := final (Count.header ctx "i" start stop (some step) 3 m₁)
  let m₃ := final (tick config 3 m₂)
  let m₄ := final (Exec.execBlock ctx .granted sts m₃)
  have reached : Reachable declareCounter Script.host config 0 {} m₀ :=
    reachable_final declareCounter Script.host config 0 {}
  have began : interrupted ctx .granted (.forTo "i" start stop (some step) sts ⟨3, 1⟩) m₀ = .ok false m₁ :=
    eq_ok_of_outcome (by decide +kernel)
  have ran : Count.header ctx "i" start stop (some step) 3 m₁ = .ok c m₂ := eq_ok_of_outcome (by decide +kernel)
  have ticked : tick config 3 m₂ = .ok () m₃ := eq_ok_of_outcome (by decide +kernel)
  have ended : Exec.execBlock ctx .granted sts m₃ = .ok .normal m₄ := eq_normal_of_outcome (by decide +kernel)
  have advanced : c.advance 1 m₄ = .ok () (final (c.advance 1 m₄)) := eq_ok_of_outcome (by decide +kernel)
  have numbers : m₂.number? 0 = some 1 ∧ m₄.number? 0 = some 1 ∧ m₂.scopes.depth = 1 := by decide +kernel
  have values : c.continues 1 = true ∧ c.value 1 = 3 := by decide +kernel
  clear_value m₀ m₁ m₂ m₃ m₄
  obtain ⟨reads, left, outermost⟩ := numbers
  let q : Pass Script := ⟨m₂, 1, m₄, 1, final (c.advance 1 m₄)⟩
  have completes : c.Completes config (Exec.execBlock ctx .granted sts) q :=
    ⟨⟨m₃, ⟨reads, values.1, ticked⟩, ended⟩, left, advanced⟩
  refine ⟨m₀, m₁, m₂, c, q, reached, began, ran, rfl, completes, rfl, ?_⟩
  obtain ⟨-, owns, -, passes⟩ := (counting_advances reached 0 .granted "i" start stop (some step) sts ⟨3, 1⟩).2
    m₁ c m₂ began ran
  obtain ⟨-, tested⟩ := passes [q] q.next (.pass completes (.start q.next))
  rw [← values.2]
  exact (tested (List.forall_mem_singleton.2 ⟨rfl, fun _ => owns outermost⟩)).2

/-- A procedure that counts in a global variable and declares a variable of that name in the body of the loop. -/
def shadowedCounter : Program where
  statements :=
    [.declare "i" .integer ⟨1, 1⟩,
      .define ⟨"P", [], none,
        [.forTo "i" (.literal (.number 1) ⟨3, 11⟩) (.literal (.number 1) ⟨3, 16⟩) none
          [.declare "i" .integer ⟨4, 5⟩] ⟨3, 3⟩], ⟨2, 1⟩⟩,
      .call "P" [] ⟨7, 1⟩]

/-- A loop from one to one comes to a second pass. -/
theorem shadowedCounter_repeats :
    outcome (shadowedCounter.exec Script.host { arenaSize := 1030 } (.initial { arenaSize := 1030 } 0 {})) =
      .error ⟨.redeclaration "i", 4⟩ := by
  decide +kernel

end Pseudocode
