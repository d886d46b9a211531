import Pseudocode.Value

/-!
Variables and the scopes that name them. A variable lives in a cell, and a name in a scope stands
for a cell, so that two names may share one. The global scope comes first; every other scope has a
parent, where names that it lacks are looked up.
-/

namespace Pseudocode

abbrev CellId := Nat

abbrev ScopeId := Nat

def globalScope : ScopeId := 0

/-- `value` is none until the first assignment, `address` is where the arena holds a copy of the
value, if anywhere, and `owner` is the scope that declared the variable. -/
structure Variable where
  type : DataType
  value : Option Value
  constant : Bool
  address : Option Nat
  owner : ScopeId

namespace Variable

def declared (type : DataType) (value : Option Value) (owner : ScopeId) : Variable :=
  ⟨type, value, false, none, owner⟩

/-- How a listing of variables shows one. -/
def render (v : Variable) : String :=
  let value := (v.value.map Value.display).getD "<uninitialized>"
  let place := match v.address with
    | some a => s!" @{addressText a}"
    | none => ""
  s!"{value} : {v.type.render}{place}"

end Variable

/-- `vars` maps the names of a scope to cells, and `order` lists them in the order of their declaration;
the two stay in step. -/
structure Scope where
  parent : Option ScopeId
  vars : List (String × CellId)
  order : List String
  listed : ∀ name, name ∈ order ↔ (vars.lookup name).isSome
deriving DecidableEq, Repr

namespace Scope

def empty (parent : Option ScopeId) : Scope := ⟨parent, [], [], by simp⟩

/-- The cell that a name of the scope stands for. -/
def get? (scope : Scope) (name : String) : Option CellId := scope.vars.lookup name

/-- Gives a cell a name. -/
def bind (scope : Scope) (name : String) (cell : CellId) : Scope where
  parent := scope.parent
  vars := (name, cell) :: scope.vars
  order := scope.order ++ [name]
  listed n := by
    rw [List.mem_append, scope.listed, List.lookup_cons]
    by_cases same : n = name
    · simp [same]
    · simp only [List.mem_singleton, same, or_false, beq_false_of_ne same]

/-- The names of a scope with their cells, in the order of their declaration. -/
def names (scope : Scope) : List (String × CellId) :=
  scope.order.filterMap fun name => (scope.get? name).map (name, ·)

end Scope

/-- `stack` holds the live scopes, the global one first and the innermost last; a scope's id is its
place. -/
structure Scopes where
  cells : Array Variable
  stack : Array Scope

namespace Scopes

def initial : Scopes := ⟨#[], #[.empty none]⟩

def depth (s : Scopes) : Nat := s.stack.size

/-- The innermost scope. -/
def current (s : Scopes) : ScopeId := s.stack.size - 1

/-- Opens a scope. -/
def push (s : Scopes) (parent : ScopeId) : Scopes := { s with stack := s.stack.push (.empty (some parent)) }

/-- The innermost scope, unless it is the global one. -/
def innermost? (s : Scopes) : Option Scope := if 1 < s.stack.size then s.stack.back? else none

/-- Closes the innermost scope, unless it is the global one. -/
def pop (s : Scopes) : Scopes := if 1 < s.stack.size then { s with stack := s.stack.pop } else s

def scope? (s : Scopes) (id : ScopeId) : Option Scope := s.stack[id]?

/-- The variable in a cell. -/
def cell? (s : Scopes) (cell : CellId) : Option Variable := s.cells[cell]?

/-- Changes the variable in a cell. -/
def update (s : Scopes) (cell : CellId) (f : Variable → Variable) : Scopes :=
  { s with cells := s.cells.modify cell f }

/-- Whether a scope is there and does not have a name. -/
def accepts (s : Scopes) (id : ScopeId) (name : String) : Bool :=
  match s.scope? id with
  | some scope => (scope.get? name).isNone
  | none => false

/-- Gives a cell a further name in a scope. -/
def link (s : Scopes) (id : ScopeId) (name : String) (cell : CellId) : Scopes :=
  { s with stack := s.stack.modify id (·.bind name cell) }

/-- Gives a cell a name in a scope that accepts it. -/
def link? (s : Scopes) (id : ScopeId) (name : String) (cell : CellId) : Option Scopes :=
  if s.accepts id name then some (s.link id name cell) else none

/-- Adds a cell with a variable. Its id is the number of cells before. -/
def addCell (s : Scopes) (v : Variable) : Scopes := { s with cells := s.cells.push v }

/-- Gives a variable a cell of its own and a name in a scope. -/
def declare (s : Scopes) (id : ScopeId) (name : String) (v : Variable) : Scopes :=
  let cell := s.cells.size
  (s.addCell v).link id name cell

/-- Declares a variable in a scope that accepts its name. -/
def declare? (s : Scopes) (id : ScopeId) (name : String) (v : Variable) : Option Scopes :=
  if s.accepts id name then some (s.declare id name v) else none

/-- The cell a name stands for in a scope or the nearest of its ancestors that has the name. At most
`n` scopes are searched. -/
def lookupFrom (s : Scopes) (name : String) : Nat → ScopeId → Option CellId
  | 0, _ => none
  | n + 1, id =>
    match s.scope? id with
    | none => none
    | some scope =>
      match scope.get? name with
      | some cell => some cell
      | none =>
        match scope.parent with
        | some parent => lookupFrom s name n parent
        | none => none

/-- A name's cell as seen from a scope. No scope is its own ancestor, so the depth bounds the
search. -/
def lookup? (s : Scopes) (id : ScopeId) (name : String) : Option CellId := s.lookupFrom name s.depth id

/-- The names that a scope and its ancestors have besides those in `hidden`. -/
def visibleFrom (s : Scopes) (hidden : List String) : Nat → ScopeId → List (String × CellId)
  | 0, _ => []
  | n + 1, id =>
    match s.scope? id with
    | none => []
    | some scope =>
      let seen := scope.names.filter fun entry => !hidden.contains entry.1
      match scope.parent with
      | some parent => seen ++ visibleFrom s (hidden ++ seen.map (·.1)) n parent
      | none => seen

/-- All names visible from a scope, innermost scopes first, in the order of their declaration. -/
def visible (s : Scopes) (id : ScopeId) : List (String × CellId) := s.visibleFrom [] s.depth id

end Scopes

end Pseudocode
