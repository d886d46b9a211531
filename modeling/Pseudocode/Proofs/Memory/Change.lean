import Pseudocode.Proofs.Mirror.Invariant
import Pseudocode.Proofs.Steps

/-!
What a run does to memory. Between calls memory changes in few ways (`Change`): a value is stored in a
variable, in an element of an array or in a block, a block is taken or given back, a variable gets an
address, or a variable is declared. A call opens a scope for its parameters (`Scopes.enter`), and at its
end that scope is closed and its variables end (`leave`). Variables and their copies in the arena go on
agreeing through all of this.
-/

namespace Pseudocode

theorem getElem?_modify_eq_some {cells : Array Variable} {c d : CellId} {f : Variable → Variable}
    {w : Variable} (there : (cells.modify c f)[d]? = some w) :
    (d = c ∧ ∃ v, cells[c]? = some v ∧ w = f v) ∨ cells[d]? = some w := by
  rw [Array.getElem?_modify] at there
  split at there
  · rename_i same
    subst same
    obtain ⟨v, old, rfl⟩ := Option.map_eq_some_iff.1 there
    exact .inl ⟨rfl, v, old, rfl⟩
  · exact .inr there

theorem getElem?_push_eq_some {cells : Array Variable} {c : CellId} {v w : Variable}
    (there : (cells.push v)[c]? = some w) : c = cells.size ∧ w = v ∨ cells[c]? = some w := by
  rw [Array.getElem?_push] at there
  split at there
  · exact .inl ⟨‹_›, (Option.some.inj there).symm⟩
  · exact .inr there

theorem Value.isArray_of_conforms {v : Value} {type : DataType} (fits : v.conforms type = true)
    (array : v.isArray = true) : type.isArray = true := by
  cases v <;> cases array
  cases type <;> first | rfl | cases fits

namespace Variable

@[simp] theorem type_setElement (v : Variable) (i : Nat) (x : Value) : (v.setElement i x).type = v.type := by
  unfold setElement
  split <;> rfl

@[simp] theorem address_setElement (v : Variable) (i : Nat) (x : Value) :
    (v.setElement i x).address = v.address := by
  unfold setElement
  split <;> rfl

@[simp] theorem owner_setElement (v : Variable) (i : Nat) (x : Value) :
    (v.setElement i x).owner = v.owner := by
  unfold setElement
  split <;> rfl

theorem value_setElement {v : Variable} {g : Grid Value} (array : v.value = some (.array g)) (i : Nat)
    (x : Value) : (v.setElement i x).value = some (.array (g.set i x)) := by
  obtain ⟨type, value, constant, address, owner⟩ := v
  cases array
  rfl

namespace Plain

variable {v : Variable} (plain : v.Plain)
include plain

theorem address_of_array {g : Grid Value} (array : v.value = some (.array g)) : v.address = none := by
  cases address : v.address with
  | none => rfl
  | some a =>
    have := plain.scalar a address
    rw [plain.array g array] at this
    cases this

/-- A value that fits may be assigned. -/
theorem assign {x : Value} (fits : x.conforms v.type = true) : { v with value := some x }.Plain where
  array := by
    rintro g ⟨⟩
    exact Value.isArray_of_conforms fits rfl
  scalar := plain.scalar

/-- A value that fits something with an address is no array. -/
theorem scalar_of_conforms {x : Value} {a : Nat} (address : v.address = some a)
    (fits : x.conforms v.type = true) : x.isArray = false := by
  cases array : x.isArray with
  | false => rfl
  | true =>
    have := plain.scalar a address
    rw [Value.isArray_of_conforms fits array] at this
    cases this

end Plain

/-- A parameter that has a value which fits is plain. -/
theorem Plain.declared_of_conforms {x : Value} {type : DataType} {owner : ScopeId}
    (fits : x.conforms type = true) : Plain (.declared type (some x) owner) where
  array := by
    rintro g ⟨⟩
    exact Value.isArray_of_conforms fits rfl
  scalar _ := nofun

/-- A variable as it is declared in a scope. It has no address, and if it has a value, then one that
fits it: one that is known, or an array of empty cells. -/
structure Starts (V : Value → Prop) (owner : ScopeId) (v : Variable) : Prop where
  address : v.address = none
  owner : v.owner = owner
  fits : ∀ x, v.value = some x → x.conforms v.type = true
  known : ∀ x, v.value = some x → V x ∨ ∃ dims element g,
    v.type = .array dims element ∧ Grid.blank? dims element = some g ∧ x = .array g

theorem Starts.plain {V : Value → Prop} {owner : ScopeId} {v : Variable} (h : v.Starts V owner) :
    v.Plain where
  array g array := Value.isArray_of_conforms (h.fits _ array) rfl
  scalar a address := by
    rw [h.address] at address
    cases address

end Variable

namespace Memory

/-- A name that is visible from the innermost scope stands for a cell. -/
def Sees (mem : Memory) (c : CellId) : Prop := ∃ name, mem.scopes.lookup? mem.scopes.current name = some c

/-- A cell can be reached, by a name that is visible or by an address. -/
def Reaches (mem : Memory) (c : CellId) : Prop := mem.Sees c ∨ ∃ a, mem.bound.lookup a = some c

/-- The variables agree with their copies in the arena. -/
def Mirrors (mem : Memory) : Prop := Mirror mem.scopes.cells mem.arena mem.bound

/-- One change of memory between calls. `V` holds of the values that are stored. -/
inductive Change (V : Value → Prop) (mem : Memory) : Memory → Prop where
  | store {c : CellId} {v : Variable} {x : Value} :
    mem.Reaches c → mem.scopes.cells[c]? = some v → v.constant = false → x.conforms v.type = true → V x →
      Change V mem
        ⟨mem.scopes.update c fun v => { v with value := some x },
          v.address.elim mem.arena (mem.arena.put · x),
          mem.bound⟩
  | storeElement {c : CellId} {v : Variable} {g : Grid Value} {x : Value} (i : Nat) :
    mem.Reaches c → mem.scopes.cells[c]? = some v → v.constant = false → v.value = some (.array g) →
      x.conforms g.element = true → V x →
        Change V mem { mem with scopes := mem.scopes.update c (·.setElement i x) }
  | put {a : Nat} {x : Value} :
    mem.arena.isAllocated a = true → mem.bound.lookup a = none → V x →
      Change V mem { mem with arena := mem.arena.put a x }
  | occupy {size start : Nat} (tag : String) :
    mem.arena.place size = .ok start → Change V mem { mem with arena := mem.arena.occupy start size tag }
  | vacate {block : Block} :
    block ∈ mem.arena.blocks → mem.bound.lookup block.start = none →
      Change V mem { mem with arena := mem.arena.vacate block }
  | bind {c : CellId} {v : Variable} {a : Nat} :
    mem.Sees c → mem.scopes.cells[c]? = some v → v.address = none → v.type.isArray = false →
      mem.arena.place v.type.size = .ok a →
      Change V mem
        ⟨mem.scopes.update c fun v => { v with address := some a },
          v.value.elim (mem.arena.occupy a v.type.size v.type.render)
            ((mem.arena.occupy a v.type.size v.type.render).put a),
          (a, c) :: mem.bound⟩
  | declare {name : String} {v : Variable} :
    mem.scopes.accepts mem.scopes.current name = true → v.Starts V mem.scopes.current →
      Change V mem { mem with scopes := mem.scopes.declare mem.scopes.current name v }

variable {V : Value → Prop} {mem mem' : Memory}

theorem Change.mirrors (h : mem.Mirrors) (change : Change V mem mem') : mem'.Mirrors := by
  cases change with
  | @store c v x _ there _ fits =>
    cases address : v.address with
    | none =>
      exact h.change_unbound there address (fun v => { v with value := some x }) address
        ((h.plain there).assign fits)
    | some a => exact h.write there address ((h.plain there).scalar_of_conforms address fits)
  | @storeElement c v g x i _ there _ array =>
    have plain := h.plain there
    have free := plain.address_of_array array
    refine h.change_unbound there free (·.setElement i x) (by simp [free]) ⟨fun _ _ => ?_, ?_⟩
    · rw [Variable.type_setElement, plain.array g array]
    · simp [free]
  | put taken unbound => exact h.put_unbound taken unbound _
  | occupy tag placed => exact Mirror.occupy h placed tag
  | vacate member unbound => exact h.vacate_unbound member unbound
  | bind _ there free scalar placed => exact Mirror.bind h there free scalar placed
  | declare _ starts => exact Mirror.push h starts.address starts.plain

/-- Opens the scope of a call. -/
def enter (mem : Memory) (ps : List Param) (bs : List Binding) : Memory :=
  { mem with scopes := mem.scopes.enter ps bs }

/-- Ends a variable, if a scope has declared it. Its value, its block and its entry go. -/
def endVariable (id : ScopeId) (mem : Memory) (c : CellId) : Memory :=
  match mem.scopes.cell? c with
  | none => mem
  | some v =>
    if v.owner = id then
      ⟨mem.scopes.update c fun v => { v with value := none, address := none },
        v.address.elim mem.arena fun a => mem.arena.vacate ⟨a, v.type.size, v.type.render⟩,
        v.address.elim mem.bound fun a => mem.bound.filter (·.1 != a)⟩
    else mem

/-- Closes the innermost scope, unless it is the global one, and ends its variables. -/
def leave (mem : Memory) : Memory :=
  match mem.scopes.innermost? with
  | none => mem
  | some scope =>
    (scope.names.map (·.2)).foldl (endVariable mem.scopes.pop.depth) { mem with scopes := mem.scopes.pop }

/-- What survives the closing of a scope and the end of each variable survives the end of a call. -/
theorem leave_of {P : Memory → Prop} (h : P mem) (closed : P { mem with scopes := mem.scopes.pop })
    (ended : ∀ (mem : Memory) (id : ScopeId) (c : CellId), P mem → P (mem.endVariable id c)) :
    P mem.leave := by
  unfold leave
  cases mem.scopes.innermost? with
  | none => exact h
  | some scope =>
    refine List.foldlRecOn (scope.names.map (·.2)) _ closed fun mem inv c _ => ?_
    exact ended mem _ c inv

@[simp] theorem stack_endVariable (id : ScopeId) (c : CellId) :
    (mem.endVariable id c).scopes.stack = mem.scopes.stack := by
  unfold endVariable
  split
  · rfl
  · split <;> rfl

/-- A variable ends if its scope has declared it. -/
theorem cells_endVariable (id : ScopeId) (c d : CellId) :
    (mem.endVariable id c).scopes.cells[d]? = mem.scopes.cells[d]?.map fun v =>
      if d = c ∧ v.owner = id then { v with value := none, address := none } else v := by
  unfold endVariable Scopes.cell?
  by_cases same : d = c
  · subst same
    cases there : mem.scopes.cells[d]? with
    | none => simp [there]
    | some v =>
      by_cases own : v.owner = id
      · simp [own, Scopes.update, Array.getElem?_modify, there]
      · simp [own, there]
  · split
    · simp [same]
    · split
      · simp [same, Scopes.update, Array.getElem?_modify, Ne.symm same]
      · simp [same]

@[simp] theorem stack_endAll (id : ScopeId) (cells : List CellId) :
    (cells.foldl (endVariable id) mem).scopes.stack = mem.scopes.stack := by
  induction cells generalizing mem with
  | nil => rfl
  | cons c rest ih => exact ih.trans (stack_endVariable id c)

theorem cells_endAll (id : ScopeId) (cells : List CellId) (d : CellId) :
    (cells.foldl (endVariable id) mem).scopes.cells[d]? = mem.scopes.cells[d]?.map fun v =>
      if d ∈ cells ∧ v.owner = id then { v with value := none, address := none } else v := by
  induction cells generalizing mem with
  | nil => simp
  | cons c rest ih =>
    rw [List.foldl_cons, ih, cells_endVariable, Option.map_map]
    congr 1
    funext v
    by_cases own : v.owner = id
    · by_cases here : d = c
      · simp [own, here]
      · simp [own, here]
    · simp [own]

/-- A scope inside the global one is closed, and the variables that it names and owns end. -/
theorem leave_of_inner (inner : 1 < mem.scopes.depth) :
    ∃ scope, mem.scopes.scope? mem.scopes.current = some scope ∧
      mem.leave = (scope.names.map (·.2)).foldl (endVariable mem.scopes.current)
        { mem with scopes := mem.scopes.pop } := by
  have live : mem.scopes.current < mem.scopes.stack.size :=
    Nat.sub_one_lt_of_lt (Nat.lt_trans Nat.zero_lt_one inner)
  obtain ⟨scope, there⟩ : ∃ scope, mem.scopes.scope? mem.scopes.current = some scope :=
    ⟨_, Array.getElem?_eq_getElem live⟩
  refine ⟨scope, there, ?_⟩
  unfold leave
  rw [Scopes.innermost?_of_inner inner, there, Scopes.depth_pop inner]

section Leave

variable (inner : 1 < mem.scopes.depth)

include inner

theorem stack_leave : mem.leave.scopes.stack = mem.scopes.pop.stack := by
  obtain ⟨scope, -, left⟩ := leave_of_inner inner
  rw [left, stack_endAll]

theorem depth_leave : mem.leave.scopes.depth = mem.scopes.current := by
  rw [← Scopes.depth_pop inner, Scopes.depth, stack_leave inner, Scopes.depth]

theorem scope?_leave (id : ScopeId) : mem.leave.scopes.scope? id = mem.scopes.pop.scope? id := by
  rw [Scopes.scope?, stack_leave inner, Scopes.scope?]

theorem names_leave {id : ScopeId} {name : String} {c : CellId} :
    mem.leave.scopes.Names id name c ↔ id < mem.scopes.current ∧ mem.scopes.Names id name c := by
  rw [← Scopes.names_pop inner, Scopes.Names, scope?_leave inner, Scopes.Names]

theorem lists_of_leave {id : ScopeId} {c : CellId} (listed : mem.leave.scopes.Lists id c) :
    mem.scopes.Lists id c := by
  rw [Scopes.Lists, scope?_leave inner] at listed
  exact Scopes.lists_of_pop listed

theorem flat_leave (flat : mem.scopes.Flat) : mem.leave.scopes.Flat := by
  intro id scope live
  rw [scope?_leave inner] at live
  exact flat.pop id scope live

/-- The variables of scopes further out are left as they are. -/
theorem cells_leave_outer {c : CellId} {v : Variable} (there : mem.scopes.cells[c]? = some v)
    (outer : v.owner ≠ mem.scopes.current) : mem.leave.scopes.cells[c]? = some v := by
  obtain ⟨scope, -, left⟩ := leave_of_inner inner
  rw [left, cells_endAll]
  simp [there, outer]

theorem cells_leave {c : CellId} {v : Variable} (there : mem.scopes.cells[c]? = some v) :
    ∃ w, mem.leave.scopes.cells[c]? = some w ∧ w.owner = v.owner := by
  obtain ⟨scope, -, left⟩ := leave_of_inner inner
  rw [left, cells_endAll, Scopes.cells_pop, there]
  refine ⟨_, rfl, ?_⟩
  dsimp only
  split <;> rfl

end Leave

theorem Mirrors.enter (h : mem.Mirrors) {W : Type} {κ : Knowledge W} {w : W} {ps : List Param}
    {bs : List Binding} (known : κ.bindings w ps bs) : (mem.enter ps bs).Mirrors := by
  refine Scopes.receiveAll_of (P := fun s => Mirror s.cells mem.arena mem.bound) ?_ known h
  intro s p b given inv
  unfold Scopes.receive
  split
  · cases b with
    | shared cell => exact inv
    | copied v => exact inv.push rfl (.declared_of_conforms given.2)
  · exact inv

theorem Mirrors.endVariable (h : mem.Mirrors) (id : ScopeId) (c : CellId) :
    (mem.endVariable id c).Mirrors := by
  unfold Memory.endVariable
  cases there : mem.scopes.cell? c with
  | none => exact h
  | some v =>
    dsimp only
    split
    · cases address : v.address with
      | none =>
        exact h.change_unbound there address (fun v => { v with value := none, address := none }) rfl
          ⟨fun _ => nofun, fun _ => nofun⟩
      | some a => exact h.unbind there address
    · exact h

/-- The block of a variable that ends goes. -/
theorem Mirrors.blocks_endVariable (h : mem.Mirrors) (id : ScopeId) (c : CellId) (b : Block) :
    b ∈ (mem.endVariable id c).arena.blocks ↔ b ∈ mem.arena.blocks ∧ ∀ v, mem.scopes.cells[c]? = some v →
      v.owner = id → v.address ≠ some b.start := by
  unfold Memory.endVariable Scopes.cell?
  cases there : mem.scopes.cells[c]? with
  | none => simp
  | some v =>
    dsimp only
    split
    · rename_i own
      cases address : v.address with
      | none => simp [address]
      | some a =>
        rw [Option.elim_some, Arena.Layout.mem_vacate h.layout (h.mirrored there address).block]
        simp [own, address, eq_comm]
    · rename_i other
      simp [other]

theorem Mirrors.blocks_endAll (h : mem.Mirrors) (id : ScopeId) (cells : List CellId) (b : Block) :
    b ∈ (cells.foldl (Memory.endVariable id) mem).arena.blocks ↔ b ∈ mem.arena.blocks ∧
      ∀ c ∈ cells, ∀ v, mem.scopes.cells[c]? = some v → v.owner = id → v.address ≠ some b.start := by
  induction cells generalizing mem with
  | nil => simp
  | cons c rest ih =>
    rw [List.foldl_cons, ih (h.endVariable id c), h.blocks_endVariable, and_assoc]
    refine and_congr_right fun _ =>
      ⟨fun ⟨first, others⟩ d member v there own placed => ?_, fun kept => ⟨?_, ?_⟩⟩
    · rcases List.mem_cons.1 member with rfl | later
      · exact first v there own placed
      · by_cases same : d = c
        · subst same
          exact first v there own placed
        · exact others d later v (by simp [cells_endVariable, there, same]) own placed
    · exact kept c List.mem_cons_self
    · intro d later v there own
      rw [cells_endVariable] at there
      obtain ⟨u, old, rfl⟩ := Option.map_eq_some_iff.1 there
      split
      · simp
      · rename_i unended
        rw [if_neg unended] at own
        exact kept d (List.mem_cons_of_mem _ later) u old own

theorem Mirrors.pop (h : mem.Mirrors) : Mirrors { mem with scopes := mem.scopes.pop } := by
  unfold Mirrors
  rw [Scopes.cells_pop]
  exact h

theorem Mirrors.leave (h : mem.Mirrors) : mem.leave.Mirrors :=
  leave_of h h.pop fun _ id c there => there.endVariable id c

end Memory

end Pseudocode
