import Pseudocode.Machine

/-!
Reading and assigning variables, array elements and dereferenced pointers. A variable that has an
address keeps a copy of its value in the arena, and both are written together.
-/

namespace Pseudocode

/-- Refuses a value that something of a declared type cannot hold. -/
def checkFit (name : String) (type : DataType) (v : Value) : Except Cause Unit :=
  if v.conforms type then .ok ()
  else
    match v, type with
    | .number x, .integer => .error (.typeMismatch (.fraction name type x))
    | _, _ => .error (.typeMismatch (.misfit name type v.kind))

/-- How an array element is named. -/
def elementName (name : String) (indices : List Int) : String :=
  name ++ "[" ++ String.intercalate ", " (indices.map toString) ++ "]"

/-- The position of an element in the grid of a variable. -/
def locate (name : String) (g : Grid Value) (indices : List Int) : Except Cause Nat :=
  if indices.length = g.dims.length then
    match g.position indices with
    | .ok i => .ok i
    | .error fault => .error (.indexOutOfBounds name fault)
  else .error (.typeMismatch (.rank name g.dims.length indices.length))

/-- The element that a variable's value holds under some indices. -/
def element (v : Variable) (name : String) (indices : List Int) : Except Cause Value :=
  match v.value with
  | some (.array g) => do
    let i ← locate name g indices
    match g.get? i with
    | some value => pure value
    | none => throw (.uninitializedRead (elementName name indices))
  | _ => throw (.typeMismatch (.notArray name))

/-- Where an element is stored, as what, and in place of what. -/
structure ElementStore where
  position : Nat
  type : DataType
  old : Option Value

/-- Checks that a value can become an element of a variable. -/
@[noinline]
def planElement (v : Variable) (name : String) (indices : List Int) (value : Value) :
    Except Cause ElementStore :=
  if v.constant then throw (.constantAssignment name)
  else
    match v.value with
    | some (.array g) => do
      let i ← locate name g indices
      checkFit (elementName name indices) g.element value
      pure ⟨i, g.element, g.get? i⟩
    | _ => throw (.typeMismatch (.notArray name))

/-- A variable with one element of its grid replaced. -/
def Variable.setElement (v : Variable) (i : Nat) (value : Value) : Variable :=
  match v with
  | ⟨type, some (.array g), constant, address, owner⟩ =>
    ⟨type, some (.array (g.set i value)), constant, address, owner⟩
  | v => v

namespace Exec

def readVariable (name : String) (line : Nat) : Exec σ Value := do
  let (_, v) ← find name line
  match v.value with
  | none => fail (.uninitializedRead name) line
  | some value =>
    let shown := if value.isArray then none else some value.display
    record .read line { subject := some name, address := v.address, value := shown }
    pure value

def readElement (name : String) (indices : List Int) (line : Nat) : Exec σ Value := do
  let (_, v) ← find name line
  let value ← ofExcept line (element v name indices)
  record .read line { subject := some (elementName name indices), value := some value.display }
  pure value

/-- Records a store under a name. A store of a pointer tells where it points to. -/
def recordStore (name : String) (type : DataType) (value : Value) (address : Option Nat) (old : Option Value)
    (line : Nat) : Exec σ Unit :=
  let note := match old with
    | some (.array _) => none
    | some v => some s!"old: {v.display}"
    | none => none
  if type.isPointer then
    record .pointerAssign line
      { subject := some name, address := some (value.address?.getD 0), pointer := address,
        value := some value.display, note }
  else
    record .write line { subject := some name, address, value := some value.display, note }

/-- Writes to the arena, and gives what was there. -/
def writeArena (address : Nat) (value : Value) (line : Nat) : Exec σ (Option Value) := do
  match (← get).arena.access address with
  | .error fault => fail (.memory fault) line
  | .ok slot =>
    modify fun m => { m with arena := m.arena.put address value }
    pure slot.value?

def assignVariable (name : String) (value : Value) (line : Nat) : Exec σ Unit := do
  let (cell, v) ← find name line
  if v.constant then fail (.constantAssignment name) line
  ofExcept line (checkFit name v.type value)
  modifyScopes (·.update cell fun v => { v with value := some value })
  if let some address := v.address then
    discard <| writeArena address value line
  recordStore name v.type value v.address v.value line

def assignElement (name : String) (indices : List Int) (value : Value) (line : Nat) : Exec σ Unit := do
  let (cell, v) ← find name line
  let plan ← ofExcept line (planElement v name indices value)
  modifyScopes (·.update cell (·.setElement plan.position value))
  recordStore (elementName name indices) plan.type value none plan.old line

/-- The variable that an address was given to. -/
def boundVariable? (address : Nat) : Exec σ (Option (CellId × Variable)) := do
  let m ← get
  match m.bound.lookup address with
  | none => pure none
  | some cell => pure ((m.scopes.cell? cell).map (cell, ·))

/-- Assigns what a pointer points to. If that is a variable, the value must fit it. -/
def assignThrough (address : Nat) (value : Value) (line : Nat) : Exec σ Unit := do
  if address = 0 then fail (.memory .nullDereference) line
  if let some (cell, v) ← boundVariable? address then
    let name := "*" ++ addressText address
    if v.constant then fail (.constantAssignment name) line
    ofExcept line (checkFit name v.type value)
    modifyScopes (·.update cell fun v => { v with value := some value })
  let old ← writeArena address value line
  record .dereference line { address := some address }
  record .write line
    { address := some address, value := some value.display, note := old.map fun v => s!"old: {v.display}" }

end Exec

end Pseudocode
