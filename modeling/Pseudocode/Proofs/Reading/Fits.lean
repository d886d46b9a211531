import Mathlib.Algebra.Ring.Int.Defs
import Pseudocode.Number
import Pseudocode.Syntax
import Pseudocode.SyntaxError

/-!
Trees that fit: they are not nested too deeply, and their nodes stand at places in a set (`Expr.Fits`, `Stmt.Fits`).
-/

namespace Pseudocode

namespace Expr

mutual

/-- How deep operators that stand before their operand, arguments and indices are nested in an expression.
Operands of binary operators stand side by side. -/
def nesting : Expr → Nat
  | .literal .. | .identifier .. | .sizeOf .. => 0
  | .element _ indices _ => nestingInside indices
  | .call _ args _ => nestingInside args
  | .binary _ left right _ => max left.nesting right.nesting
  | .unary _ operand _ | .addressOf operand _ | .dereference operand _ => operand.nesting + 1
  | .allocate size _ _ => size.nesting + 1
  | .endOfFile file _ => file.nesting + 1

def nestingInside : List Expr → Nat
  | [] => 0
  | e :: es => max (e.nesting + 1) (nestingInside es)

end

mutual

/-- Where the nodes of an expression stand. -/
def places : Expr → List Location
  | .literal _ l | .identifier _ l | .sizeOf _ l => [l]
  | .element _ indices l => l :: placesInside indices
  | .call _ args l => l :: placesInside args
  | .binary _ left right l => l :: (left.places ++ right.places)
  | .unary _ operand l | .addressOf operand l | .dereference operand l => l :: operand.places
  | .allocate size _ l => l :: size.places
  | .endOfFile file l => l :: file.places

def placesInside : List Expr → List Location
  | [] => []
  | e :: es => e.places ++ placesInside es

end

theorem nestingInside_le {es : List Expr} {n : Nat} (h : ∀ e ∈ es, e.nesting < n) : nestingInside es ≤ n := by
  induction es with
  | nil => exact Nat.zero_le n
  | cons e es ih =>
    obtain ⟨first, others⟩ := List.forall_mem_cons.1 h
    exact Nat.max_le.2 ⟨first, ih others⟩

theorem forall_mem_placesInside {S : Location → Prop} {es : List Expr} (h : ∀ e ∈ es, ∀ l ∈ e.places, S l) :
    ∀ l ∈ placesInside es, S l := by
  induction es with
  | nil => exact nofun
  | cons e es ih =>
    obtain ⟨first, others⟩ := List.forall_mem_cons.1 h
    exact List.forall_mem_append.2 ⟨first, ih others⟩

/-- An expression is nested less than `n` deep, and its nodes stand at places in `S`. -/
structure Fits (S : Location → Prop) (n : Nat) (e : Expr) : Prop where
  nesting : e.nesting < n
  places : ∀ l ∈ e.places, S l

namespace Fits

variable {S : Location → Prop} {n : Nat} {e left right : Expr} {es : List Expr} {l : Location}

theorem deeper (h : e.Fits S n) : e.Fits S (n + 1) := ⟨Nat.lt_succ_of_lt h.nesting, h.places⟩

/-- An expression without operands. -/
theorem leaf (flat : e.nesting = 0) (alone : e.places = [l]) (here : S l) : e.Fits S (n + 1) :=
  ⟨flat ▸ Nat.succ_pos n, alone ▸ List.forall_mem_singleton.2 here⟩

/-- An expression with one operand, which it nests. -/
theorem node {operand : Expr} (h : operand.Fits S n) (nested : e.nesting = operand.nesting + 1)
    (around : e.places = l :: operand.places) (here : S l) : e.Fits S (n + 1) :=
  ⟨nested ▸ Nat.succ_lt_succ h.nesting, around ▸ List.forall_mem_cons.2 ⟨here, h.places⟩⟩

/-- An expression with a list of operands, which it nests. -/
theorem nodes (h : ∀ operand ∈ es, operand.Fits S n) (nested : e.nesting = nestingInside es)
    (around : e.places = l :: placesInside es) (here : S l) : e.Fits S (n + 1) where
  nesting := nested ▸ Nat.lt_succ_of_le (nestingInside_le fun operand mem => (h operand mem).nesting)
  places := around ▸ List.forall_mem_cons.2 ⟨here, forall_mem_placesInside fun operand mem => (h operand mem).places⟩

theorem binary (op : BinaryOperator) (first : left.Fits S n) (second : right.Fits S n) (here : S l) :
    (Expr.binary op left right l).Fits S n where
  nesting := Nat.max_lt.2 ⟨first.nesting, second.nesting⟩
  places := List.forall_mem_cons.2 ⟨here, List.forall_mem_append.2 ⟨first.places, second.places⟩⟩

end Fits

end Expr

/-- A signed 64-bit integer. -/
def Number.Int64 (k : Int) : Prop := -2 ^ 63 ≤ k ∧ k < 2 ^ 63

instance (k : Int) : Decidable (Number.Int64 k) := inferInstanceAs (Decidable (_ ∧ _))

theorem Number.Int64.toInt64 (x : Float) : Int64 (toInt64 x) := by
  unfold Number.toInt64 clamp
  split
  · exact ⟨Int.le_max_left .., Int.max_lt.2 ⟨by decide, Int.lt_of_le_of_lt (Int.min_le_left ..) (by decide)⟩⟩
  · split
    · decide
    · split <;> decide

/-- The negation of the least one is itself. -/
theorem Number.Int64.negate {k : Int} (h : Int64 k) : Int64 (negate64 k) := by
  unfold negate64
  split
  · exact h
  · next other =>
    have least : Int.pow 2 63 = 2 ^ 63 := rfl
    rw [least] at other
    exact ⟨by have := h.2; omega, by have := h.1; omega⟩

namespace Stmt

mutual

/-- How deep blocks are nested in a statement. A block counts even if it is empty. -/
def depth : Stmt → Nat
  | .ifThen _ body other _ => max (blockDepth body) (otherDepth other)
  | .whileDo _ body _ | .repeatUntil body _ _ | .forTo _ _ _ _ body _ => blockDepth body
  | .caseOf _ branches other _ => max (branchesDepth branches) (otherDepth other)
  | .define ⟨_, _, _, body, _⟩ => blockDepth body
  | .declare .. | .constant .. | .assign .. | .output .. | .input .. | .call .. | .giveBack .. => 0
  | .openFile .. | .readFile .. | .writeFile .. | .closeFile .. | .free .. => 0

def blockDepth : List Stmt → Nat
  | [] => 1
  | s :: body => max (s.depth + 1) (blockDepth body)

def otherDepth : Option (List Stmt) → Nat
  | none => 0
  | some body => blockDepth body

def branchesDepth : List (CaseBranch Stmt) → Nat
  | [] => 0
  | ⟨_, body, _⟩ :: branches => max (blockDepth body) (branchesDepth branches)

end

mutual

/-- The expressions in a statement, those in its blocks included. The arguments of CALL are nested in a
call. -/
def expressions : Stmt → List Expr
  | .declare .. => []
  | .constant _ value _ => [value]
  | .assign target value _ => [target, value]
  | .output items _ => items
  | .input target _ => [target]
  | .ifThen condition body other _ => condition :: (blockExpressions body ++ otherExpressions other)
  | .whileDo condition body _ | .repeatUntil body condition _ => condition :: blockExpressions body
  | .forTo _ start stop step body _ => start :: stop :: (step.toList ++ blockExpressions body)
  | .caseOf subject branches other _ => subject :: (branchesExpressions branches ++ otherExpressions other)
  | .define ⟨_, _, _, body, _⟩ => blockExpressions body
  | .call name args l => [.call name args l]
  | .giveBack value _ => value.toList
  | .openFile file _ _ | .closeFile file _ | .free file _ => [file]
  | .readFile file other _ | .writeFile file other _ => [file, other]

def blockExpressions : List Stmt → List Expr
  | [] => []
  | s :: body => s.expressions ++ blockExpressions body

def otherExpressions : Option (List Stmt) → List Expr
  | none => []
  | some body => blockExpressions body

def branchesExpressions : List (CaseBranch Stmt) → List Expr
  | [] => []
  | ⟨_, body, _⟩ :: branches => blockExpressions body ++ branchesExpressions branches

end

mutual

/-- Where the statements, expressions and definitions in a statement stand, itself included. -/
def places : Stmt → List Location
  | .declare _ _ l => [l]
  | .constant _ value l => l :: value.places
  | .assign target value l => l :: (target.places ++ value.places)
  | .output items l => l :: Expr.placesInside items
  | .input target l => l :: target.places
  | .ifThen condition body other l => l :: (condition.places ++ (blockPlaces body ++ otherPlaces other))
  | .whileDo condition body l | .repeatUntil body condition l => l :: (condition.places ++ blockPlaces body)
  | .forTo _ start stop step body l =>
    l :: (start.places ++ (stop.places ++ (Expr.placesInside step.toList ++ blockPlaces body)))
  | .caseOf subject branches other l => l :: (subject.places ++ (branchesPlaces branches ++ otherPlaces other))
  | .define ⟨_, _, _, body, l⟩ => l :: blockPlaces body
  | .call _ args l => l :: Expr.placesInside args
  | .giveBack value l => l :: Expr.placesInside value.toList
  | .openFile file _ l | .closeFile file l | .free file l => l :: file.places
  | .readFile file other l | .writeFile file other l => l :: (file.places ++ other.places)

def blockPlaces : List Stmt → List Location
  | [] => []
  | s :: body => s.places ++ blockPlaces body

def otherPlaces : Option (List Stmt) → List Location
  | none => []
  | some body => blockPlaces body

def branchesPlaces : List (CaseBranch Stmt) → List Location
  | [] => []
  | ⟨_, body, _⟩ :: branches => blockPlaces body ++ branchesPlaces branches

end

/-- No expression among these is nested too deeply. -/
def Shallow (es : List Expr) : Prop := ∀ e ∈ es, e.nesting ≤ maxNesting

/-- Blocks are nested at most `n` deep in a statement. -/
structure Within (n : Nat) (s : Stmt) : Prop where
  depth : s.depth ≤ n
  shallow : Shallow s.expressions

/-- What statements are made of: blocks at most `n` deep, expressions that are not nested too deeply, and nodes at
places in `S`. -/
structure Made (S : Location → Prop) (n depth : Nat) (es : List Expr) (places : List Location) : Prop where
  depth : depth ≤ n
  shallow : Shallow es
  places : ∀ l ∈ places, S l

abbrev Fits (S : Location → Prop) (n : Nat) (s : Stmt) : Prop := Made S n s.depth s.expressions s.places

abbrev BlockFits (S : Location → Prop) (n : Nat) (body : List Stmt) : Prop :=
  Made S n (blockDepth body) (blockExpressions body) (blockPlaces body)

abbrev OtherFits (S : Location → Prop) (n : Nat) (other : Option (List Stmt)) : Prop :=
  Made S n (otherDepth other) (otherExpressions other) (otherPlaces other)

abbrev BranchesFit (S : Location → Prop) (n : Nat) (branches : List (CaseBranch Stmt)) : Prop :=
  Made S n (branchesDepth branches) (branchesExpressions branches) (branchesPlaces branches)

namespace Made

variable {S : Location → Prop} {n d d' : Nat} {e : Expr} {es es' : List Expr} {l : Location} {ls ls' : List Location}

theorem none : Made S n 0 [] [] := ⟨Nat.zero_le n, nofun, nofun⟩

theorem one (fits : e.Fits S (maxNesting + 1)) : Made S n 0 [e] e.places :=
  ⟨Nat.zero_le n, List.forall_mem_singleton.2 (Nat.le_of_lt_succ fits.nesting), fits.places⟩

theorem both (h : Made S n d es ls) (h' : Made S n d' es' ls') : Made S n (max d d') (es ++ es') (ls ++ ls') where
  depth := Nat.max_le.2 ⟨h.depth, h'.depth⟩
  shallow := List.forall_mem_append.2 ⟨h.shallow, h'.shallow⟩
  places := List.forall_mem_append.2 ⟨h.places, h'.places⟩

theorem split (h : Made S n (max d d') (es ++ es') (ls ++ ls')) : Made S n d es ls ∧ Made S n d' es' ls' := by
  obtain ⟨depth, depth'⟩ := Nat.max_le.1 h.depth
  obtain ⟨shallow, shallow'⟩ := List.forall_mem_append.1 h.shallow
  obtain ⟨places, places'⟩ := List.forall_mem_append.1 h.places
  exact ⟨⟨depth, shallow, places⟩, ⟨depth', shallow', places'⟩⟩

/-- With expressions before it that were read at the top of a statement. -/
theorem exprs (h : Made S n d es' ls) (fits : ∀ e ∈ es, e.Fits S (maxNesting + 1)) :
    Made S n d (es ++ es') (Expr.placesInside es ++ ls) where
  depth := h.depth
  shallow := List.forall_mem_append.2 ⟨fun e mem => Nat.le_of_lt_succ (fits e mem).nesting, h.shallow⟩
  places := List.forall_mem_append.2 ⟨Expr.forall_mem_placesInside fun e mem => (fits e mem).places, h.places⟩

theorem expr (h : Made S n d es ls) (fits : e.Fits S (maxNesting + 1)) : Made S n d (e :: es) (e.places ++ ls) where
  depth := h.depth
  shallow := List.forall_mem_cons.2 ⟨Nat.le_of_lt_succ fits.nesting, h.shallow⟩
  places := List.forall_mem_append.2 ⟨fits.places, h.places⟩

theorem all (fits : ∀ e ∈ es, e.Fits S (maxNesting + 1)) : Made S n 0 es (Expr.placesInside es) := by
  have alone := (none : Made S n 0 [] []).exprs fits
  rwa [List.append_nil, List.append_nil] at alone

theorem node (h : Made S n d es ls) (inside : S l) : Made S n d es (l :: ls) :=
  ⟨h.depth, h.shallow, List.forall_mem_cons.2 ⟨inside, h.places⟩⟩

end Made

variable {S : Location → Prop} {n : Nat} {body : List Stmt}

theorem Fits.within {s : Stmt} (h : s.Fits S n) : s.Within n := ⟨h.depth, h.shallow⟩

theorem blockDepth_le : blockDepth body ≤ n ↔ 1 ≤ n ∧ ∀ s ∈ body, s.depth < n := by
  induction body with
  | nil => simp [blockDepth]
  | cons s body ih =>
    rw [blockDepth, Nat.max_le, ih, List.forall_mem_cons, Nat.succ_le_iff, and_left_comm]

theorem BlockFits.of_forall (h : ∀ s ∈ body, s.Fits S n) : BlockFits S (n + 1) body := by
  induction body with
  | nil => exact ⟨Nat.le_add_left 1 n, nofun, nofun⟩
  | cons s body ih =>
    obtain ⟨first, others⟩ := List.forall_mem_cons.1 h
    exact Made.both ⟨Nat.succ_le_succ first.depth, first.shallow, first.places⟩ (ih others)

theorem BranchesFit.append {branches : List (CaseBranch Stmt)} (h : BranchesFit S n branches) (label : CaseLabel)
    (fits : BlockFits S n body) (l : Location) : BranchesFit S n (branches ++ [⟨label, body, l⟩]) := by
  induction branches with
  | nil => exact fits.both .none
  | cons branch branches ih =>
    obtain ⟨first, others⟩ := h.split
    exact first.both (ih others)

end Stmt

end Pseudocode
