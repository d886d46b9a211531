import Pseudocode.Syntax

/-!
Trees that stand elsewhere: every place in them is changed by a function, and nothing else is.
-/

namespace Pseudocode

variable (f : Location → Location)

namespace Expr

mutual

def moved : Expr → Expr
  | .literal value l => .literal value (f l)
  | .identifier name l => .identifier name (f l)
  | .element name indices l => .element name (movedAll indices) (f l)
  | .binary op left right l => .binary op left.moved right.moved (f l)
  | .unary op operand l => .unary op operand.moved (f l)
  | .call name args l => .call name (movedAll args) (f l)
  | .addressOf operand l => .addressOf operand.moved (f l)
  | .dereference operand l => .dereference operand.moved (f l)
  | .allocate size tag l => .allocate size.moved tag (f l)
  | .sizeOf type l => .sizeOf type (f l)
  | .endOfFile file l => .endOfFile file.moved (f l)

def movedAll : List Expr → List Expr
  | [] => []
  | e :: es => e.moved :: movedAll es

end

theorem movedAll_eq_map (es : List Expr) : movedAll f es = es.map (moved f) := by
  induction es with
  | nil => rfl
  | cons e es ih => rw [movedAll, ih, List.map_cons]

mutual

theorem moved_id : ∀ e : Expr, e.moved id = e
  | .literal .. | .identifier .. | .sizeOf .. => rfl
  | .element _ indices _ => by rw [moved, movedAll_id indices]; rfl
  | .binary _ left right _ => by rw [moved, moved_id left, moved_id right]; rfl
  | .unary _ operand _ => by rw [moved, moved_id operand]; rfl
  | .call _ args _ => by rw [moved, movedAll_id args]; rfl
  | .addressOf operand _ | .dereference operand _ => by rw [moved, moved_id operand]; rfl
  | .allocate size _ _ => by rw [moved, moved_id size]; rfl
  | .endOfFile file _ => by rw [moved, moved_id file]; rfl

theorem movedAll_id : ∀ es : List Expr, movedAll id es = es
  | [] => rfl
  | e :: es => by rw [movedAll, moved_id e, movedAll_id es]

end

theorem moved_id_eq : moved id = id := funext moved_id

end Expr

namespace Stmt

mutual

def moved : Stmt → Stmt
  | .declare name type l => .declare name type (f l)
  | .constant name value l => .constant name (value.moved f) (f l)
  | .assign target value l => .assign (target.moved f) (value.moved f) (f l)
  | .output items l => .output (items.map (Expr.moved f)) (f l)
  | .input target l => .input (target.moved f) (f l)
  | .ifThen condition body other l => .ifThen (condition.moved f) (movedBlock body) (movedOther other) (f l)
  | .whileDo condition body l => .whileDo (condition.moved f) (movedBlock body) (f l)
  | .repeatUntil body condition l => .repeatUntil (movedBlock body) (condition.moved f) (f l)
  | .forTo counter start stop step body l =>
    .forTo counter (start.moved f) (stop.moved f) (step.map (Expr.moved f)) (movedBlock body) (f l)
  | .caseOf subject branches other l =>
    .caseOf (subject.moved f) (movedBranches branches) (movedOther other) (f l)
  | .define ⟨name, params, returns, body, l⟩ => .define ⟨name, params, returns, movedBlock body, f l⟩
  | .call name args l => .call name (args.map (Expr.moved f)) (f l)
  | .giveBack value l => .giveBack (value.map (Expr.moved f)) (f l)
  | .openFile file mode l => .openFile (file.moved f) mode (f l)
  | .readFile file target l => .readFile (file.moved f) (target.moved f) (f l)
  | .writeFile file value l => .writeFile (file.moved f) (value.moved f) (f l)
  | .closeFile file l => .closeFile (file.moved f) (f l)
  | .free pointer l => .free (pointer.moved f) (f l)

def movedBlock : List Stmt → List Stmt
  | [] => []
  | s :: body => s.moved :: movedBlock body

def movedOther : Option (List Stmt) → Option (List Stmt)
  | none => none
  | some body => some (movedBlock body)

def movedBranches : List (CaseBranch Stmt) → List (CaseBranch Stmt)
  | [] => []
  | ⟨label, body, l⟩ :: branches => ⟨label, movedBlock body, f l⟩ :: movedBranches branches

end

theorem movedBlock_append (body more : List Stmt) :
    movedBlock f (body ++ more) = movedBlock f body ++ movedBlock f more := by
  induction body with
  | nil => rfl
  | cons s body ih => rw [List.cons_append, movedBlock, movedBlock, ih, List.cons_append]

theorem movedBranches_append (branches more : List (CaseBranch Stmt)) :
    movedBranches f (branches ++ more) = movedBranches f branches ++ movedBranches f more := by
  induction branches with
  | nil => rfl
  | cons branch branches ih =>
    obtain ⟨label, body, l⟩ := branch
    rw [List.cons_append, movedBranches, movedBranches, ih, List.cons_append]

mutual

theorem moved_id : ∀ s : Stmt, s.moved id = s
  | .declare .. => rfl
  | .constant .. | .assign .. | .input .. | .openFile .. | .readFile .. | .writeFile .. | .closeFile ..
  | .free .. => by
    simp only [moved, Expr.moved_id, id]
  | .output .. | .call .. | .giveBack .. => by
    simp only [moved, Expr.moved_id_eq, List.map_id, Option.map_id, id]
  | .ifThen _ body other _ => by simp only [moved, Expr.moved_id, movedBlock_id body, movedOther_id other, id]
  | .whileDo _ body _ | .repeatUntil body _ _ => by simp only [moved, Expr.moved_id, movedBlock_id body, id]
  | .forTo _ _ _ _ body _ => by
    simp only [moved, Expr.moved_id, Expr.moved_id_eq, Option.map_id, movedBlock_id body, id]
  | .caseOf _ branches other _ => by
    simp only [moved, Expr.moved_id, movedBranches_id branches, movedOther_id other, id]
  | .define ⟨_, _, _, body, _⟩ => by simp only [moved, movedBlock_id body, id]

theorem movedBlock_id : ∀ body : List Stmt, movedBlock id body = body
  | [] => rfl
  | s :: body => by rw [movedBlock, moved_id s, movedBlock_id body]

theorem movedOther_id : ∀ other : Option (List Stmt), movedOther id other = other
  | none => rfl
  | some body => by rw [movedOther, movedBlock_id body]

theorem movedBranches_id : ∀ branches : List (CaseBranch Stmt), movedBranches id branches = branches
  | [] => rfl
  | ⟨_, body, _⟩ :: branches => by rw [movedBranches, movedBlock_id body, movedBranches_id branches]; rfl

end

end Stmt

def Program.moved (p : Program) : Program := ⟨Stmt.movedBlock f p.statements⟩

theorem Program.moved_id (p : Program) : p.moved id = p := by
  rw [moved, Stmt.movedBlock_id]

end Pseudocode
