import Pseudocode.Machine.Store

/-!
Addresses, allocation and release. A variable gets a block of the arena when its address is first
taken, and gives it back when the scope that declared it ends; until then only the variable's owner
may free the block.
-/

namespace Pseudocode.Exec

/-- Takes a block from the arena. -/
def allocate (size : Nat) (tag : String) (line : Nat) : Exec σ Nat := do
  match (← get).arena.place size with
  | .error fault => fail (.memory fault) line
  | .ok start =>
    modify fun m => { m with arena := m.arena.occupy start size tag }
    pure start

/-- Gives a block back to the arena. -/
def release (address : Nat) (line : Nat) : Exec σ Block := do
  match (← get).arena.freeable address with
  | .error fault => fail (.memory fault) line
  | .ok block =>
    modify fun m => { m with arena := m.arena.vacate block }
    pure block

/-- Gives a variable its block, and the block the variable's value. -/
def bindAddress (name : String) (cell : CellId) (v : Variable) (line : Nat) : Exec σ Nat := do
  if v.type.isArray then fail (.typeMismatch (.addressOfArray name)) line
  let size := v.type.size
  let address ← allocate size v.type.render line
  if let some value := v.value then
    discard <| writeArena address value line
  modify fun m =>
    { m with
      scopes := m.scopes.update cell fun v => { v with address := some address }
      bound := (address, cell) :: m.bound }
  record .allocate line
    { subject := some name, address := some address, note := some s!"{size} slot(s) for {v.type.render}" }
  pure address

/-- The address of a variable. -/
def addressOf (name : String) (line : Nat) : Exec σ Nat := do
  let (cell, v) ← find name line
  let address ← match v.address with
    | some address => pure address
    | none => bindAddress name cell v line
  record .addressOf line { subject := some name, address := some address }
  pure address

/-- The address in a value that is to be followed. -/
def pointee (v : Value) (line : Nat) : Exec σ Nat :=
  match v with
  | .address a => pure a
  | v => fail (.typeMismatch (.dereference v.kind)) line

/-- What the arena holds at an address. -/
def readThrough (address : Nat) (line : Nat) : Exec σ Value := do
  match (← get).arena.read address with
  | .error fault => fail (.memory fault) line
  | .ok value =>
    record .dereference line { address := some address }
    record .read line { address := some address, value := some value.display }
    pure value

/-- A block of as many slots as a number says. -/
def allocateBlock (size : Float) (tag : Option DataType) (line : Nat) : Exec σ Value := do
  if !Number.isWhole size || size < 1 then fail (.memory (.invalidSize (Number.toInt64 size))) line
  let count := Number.toWord64 size
  if (← get).arena.size < count then fail (.memory (.outOfMemory count)) line
  let tag := (tag.map DataType.render).getD "BLOCK"
  let address ← allocate count tag line
  record .allocate line { address := some address, note := some s!"MALLOC {count} slot(s) of {tag}" }
  pure (.address address)

/-- Frees a block that is not a variable's. -/
def freeBlock (v : Value) (line : Nat) : Exec σ Unit := do
  match v with
  | .address address =>
    if address = 0 || ((← get).bound.lookup address).isSome then fail (.memory (.invalidFree address)) line
    let block ← release address line
    record .free line { address := some address, note := some s!"{block.size} slot(s) of {block.tag}" }
  | v => fail (.typeMismatch (.free v.kind)) line

/-- Ends a variable of a scope that has been closed. A name that shares the cell of another scope's
variable leaves it alone. -/
def endVariable (id : ScopeId) (name : String) (cell : CellId) (line : Nat) : Exec σ Unit := do
  match (← get).scopes.cell? cell with
  | none => pure ()
  | some v =>
    if v.owner = id then
      modifyScopes (·.update cell fun v => { v with value := none, address := none })
      if let some address := v.address then
        modify fun m => { m with bound := m.bound.filter (·.1 != address) }
        discard <| release address line
        record .free line { subject := some name, address := some address, note := some "end of scope" }

/-- Ends the variables of a scope in the order of their declaration. -/
def endVariables (id : ScopeId) (line : Nat) : List (String × CellId) → Exec σ Unit
  | [] => pure ()
  | (name, cell) :: rest => do
    endVariable id name cell line
    endVariables id line rest

end Pseudocode.Exec
