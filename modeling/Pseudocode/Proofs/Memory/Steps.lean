import Mathlib.Algebra.Group.Nat.Defs
import Pseudocode.Proofs.Memory.Change
import Pseudocode.Proofs.Observation
import Pseudocode.Proofs.Trace.Recording

/-!
What the steps of the machine do to memory. Each of them fails in the state in which it began, or it changes
memory at most once and adds to the trace what it has done (`Acts`); a call does to memory what `Memory.enter`
and `Memory.leave` say. So a property of memory that survives every change, and the entering and leaving of
calls, is a property of every state that a run can reach (`MemoryKept.kept`).
-/

namespace Pseudocode

open Exec

variable {σ : Type} {α β : Type} {name : String} {dims : List Bounds} {v : Variable} {m : Machine σ}
  {type : DataType} {cell : CellId} {indices : List Int}

theorem Machine.find?_eq_some :
    m.find? name = some (cell, v) ↔
      m.scopes.lookup? m.scopes.current name = some cell ∧ m.scopes.cells[cell]? = some v := by
  simp only [find?, Option.bind_eq_bind, Option.bind_eq_some_iff, Option.pure_def, Option.some.injEq,
    Prod.mk.injEq]
  constructor
  · rintro ⟨c, visible, w, there, rfl, rfl⟩
    exact ⟨visible, there⟩
  · rintro ⟨visible, there⟩
    exact ⟨cell, visible, v, there, rfl, rfl⟩

theorem Machine.cell_of_find? (found : m.find? name = some (cell, v)) : m.scopes.cells[cell]? = some v :=
  (find?_eq_some.1 found).2

theorem Machine.sees_of_find? (found : m.find? name = some (cell, v)) : m.memory.Sees cell :=
  ⟨name, (find?_eq_some.1 found).1⟩

theorem conforms_of_checkFit {v : Value} (fits : checkFit name type v = .ok ()) : v.conforms type = true := by
  unfold checkFit at fits
  split at fits
  · assumption
  · split at fits <;> cases fits

/-- An element is stored in an array, if it fits, where its indices point to. -/
theorem planElement_ok {value : Value} {plan : ElementStore} (planned : planElement v name indices value = .ok plan) :
    v.constant = false ∧ ∃ g, v.value = some (.array g) ∧ value.conforms g.element = true ∧
      indices.length = g.dims.length ∧ g.position indices = .ok plan.position := by
  unfold planElement at planned
  split at planned
  · cases planned
  · rename_i changeable
    refine ⟨by simpa using changeable, ?_⟩
    split at planned
    · rename_i g array
      refine ⟨g, array, ?_⟩
      cases located : locate name g indices with
      | error e => simp [located, bind, Except.bind] at planned
      | ok i =>
        cases checked : checkFit (elementName name indices) g.element value with
        | error e => simp [located, checked, bind, Except.bind] at planned
        | ok _ =>
          simp only [located, checked, bind, Except.bind, pure, Except.pure, Except.ok.injEq] at planned
          subst planned
          refine ⟨conforms_of_checkFit checked, ?_⟩
          unfold locate at located
          split at located
          · refine ⟨‹_›, ?_⟩
            split at located <;> cases located
            assumption
          · cases located
    · cases planned

theorem element_ok {x : Value} (found : element v name indices = .ok x) :
    ∃ g i, v.value = some (.array g) ∧ g.get? i = some x := by
  unfold element at found
  split at found
  · rename_i g array
    cases located : locate name g indices with
    | error e => simp [located, bind, Except.bind] at found
    | ok i =>
      refine ⟨g, i, array, ?_⟩
      cases held : g.get? i with
      | none => simp [located, held, bind, Except.bind] at found
      | some y =>
        simp only [located, held, bind, Except.bind] at found
        cases found
        rfl
  · cases found

theorem startValue_ok {value : Option Value} (starts : startValue name type = .ok value) {x : Value}
    (held : value = some x) :
    ∃ dims element g, type = .array dims element ∧ Grid.blank? dims element = some g ∧ x = .array g := by
  subst held
  unfold startValue at starts
  split at starts
  · rename_i dims element
    split at starts
    · cases starts
    · split at starts
      · cases starts
        exact ⟨dims, element, _, rfl, ‹_›, rfl⟩
      · cases starts
  · cases starts

/-- There are as many cells as the dimensions have index tuples. -/
theorem Bounds.cellCount?_eq_some {count : Nat} (counted : cellCount? dims = some count) :
    count = (dims.map Bounds.length).prod := by
  have fold (dims : List Bounds) (start : Nat) {count : Nat}
      (counted : dims.foldlM
        (fun count b => if count * b.length ≤ wordMax then some (count * b.length) else none)
        start = some count) : count = start * (dims.map Bounds.length).prod := by
    induction dims generalizing start with
    | nil => simpa [eq_comm] using counted
    | cons b rest ih =>
      rw [List.foldlM_cons] at counted
      by_cases small : start * b.length ≤ wordMax
      · rw [if_pos small] at counted
        rw [ih (start * b.length) counted, List.map_cons, List.prod_cons, Nat.mul_assoc]
      · rw [if_neg small] at counted
        cases counted
  rw [fold dims 1 counted, Nat.one_mul]

theorem Grid.blank?_eq_some {element : DataType} {g : Grid α} (blank : Grid.blank? dims element = some g) :
    g.dims = dims ∧ g.element = element ∧ g.cells.size = (dims.map Bounds.length).prod ∧
      ∀ i, g.get? i = none := by
  unfold Grid.blank? at blank
  cases counted : Bounds.cellCount? dims with
  | none => simp [counted] at blank
  | some count =>
    simp only [counted] at blank
    split at blank
    · cases blank
      refine ⟨rfl, rfl, by simp [Bounds.cellCount?_eq_some counted], fun i => ?_⟩
      simp only [Grid.get?, Array.getElem?_replicate]
      split <;> rfl
    · cases blank

theorem Value.conforms_constantType? {v : Value} (typed : v.constantType? = some type) : v.conforms type = true := by
  cases v with
  | number x =>
    cases typed
    split
    · assumption
    · rfl
  | array g => cases typed
  | _ => cases typed; rfl

/-- An operation that looks at memory. -/
def Operation.looks : Operation → Bool
  | .read | .addressOf | .dereference => true
  | _ => false

/-- What is recorded of a store under a name. A store in a pointer tells where it points to. -/
structure Noted.Stores (op : Noted) (name : String) (type : DataType) (x : Value) : Prop where
  subject : op.details.subject = some name
  pointer : type.isPointer = true → op.operation = .pointerAssign ∧ op.details.address = some (x.address?.getD 0)
  other : type.isPointer = false → op.operation = .write

/-- What is recorded of a store through a pointer. -/
def Noted.storesThrough (a : Nat) (x : Value) (line : Nat) (old : Option Value) : List Noted :=
  [⟨.dereference, line, { address := some a }⟩,
    ⟨.write, line, { address := some a, value := some x.display, note := old.map fun v => s!"old: {v.display}" }⟩]

namespace Machine

/-- The state after a store in a variable, and in its copy. -/
def stored (m : Machine σ) (c : CellId) (f : Variable → Variable) (address : Option Nat) (x : Value)
    (t : Trace) : Machine σ :=
  { m with scopes := m.scopes.update c f, arena := address.elim m.arena (m.arena.put · x), trace := t }

/-- The state after a variable was given a block. -/
def placed (m : Machine σ) (c : CellId) (v : Variable) (a : Nat) (t : Trace) : Machine σ :=
  { m with
    scopes := m.scopes.update c fun v => { v with address := some a }
    arena := v.value.elim (m.arena.occupy a v.type.size v.type.render)
      ((m.arena.occupy a v.type.size v.type.render).put a)
    bound := (a, c) :: m.bound
    trace := t }

/-- What a step on memory does, and what it records. `V` holds of the values that are stored. -/
inductive Effect (V : Value → Prop) (m : Machine σ) : Memory → List Noted → Prop where
  | look {ops : List Noted} : ops.all (·.operation.looks) = true → Effect V m m.memory ops
  | store {name : String} {c : CellId} {v : Variable} {x : Value} {op : Noted} :
    m.find? name = some (c, v) → v.constant = false → x.conforms v.type = true → V x → op.Stores name v.type x →
      Effect V m (m.stored c (fun v => { v with value := some x }) v.address x m.trace).memory [op]
  | storeElement {name : String} {indices : List Int} {c : CellId} {v : Variable} {x : Value} {plan : ElementStore}
      {op : Noted} :
    m.find? name = some (c, v) → planElement v name indices x = .ok plan → V x →
      op.details.subject = some (elementName name indices) →
        Effect V m { m.memory with scopes := m.scopes.update c (·.setElement plan.position x) } [op]
  | storeThrough {a line : Nat} {c : CellId} {v : Variable} {x : Value} {old : Option Value} :
    m.bound.lookup a = some c → m.scopes.cell? c = some v → v.address = some a → v.constant = false →
      x.conforms v.type = true → V x →
        Effect V m (m.stored c (fun v => { v with value := some x }) (some a) x m.trace).memory
          (Noted.storesThrough a x line old)
  | put {a line : Nat} {x : Value} {slot : Slot} {old : Option Value} :
    m.arena.access a = .ok slot → m.bound.lookup a = none → V x →
      Effect V m { m.memory with arena := m.arena.put a x } (Noted.storesThrough a x line old)
  | occupy {size start line : Nat} {tag : String} {details : Details} :
    m.arena.place size = .ok start → details.subject = none →
      Effect V m { m.memory with arena := m.arena.occupy start size tag } [⟨.allocate, line, details⟩]
  | vacate {block : Block} {line : Nat} {details : Details} :
    block ∈ m.arena.blocks → m.bound.lookup block.start = none →
      Effect V m { m.memory with arena := m.arena.vacate block } [⟨.free, line, details⟩]
  | bind {name : String} {c : CellId} {v : Variable} {a line : Nat} {note : Option String} :
    m.find? name = some (c, v) → v.address = none → v.type.isArray = false → m.arena.place v.type.size = .ok a →
      Effect V m (m.placed c v a m.trace).memory
        [⟨.allocate, line, { subject := some name, address := some a, note }⟩,
          ⟨.addressOf, line, { subject := some name, address := some a }⟩]
  | declare {name : String} {v : Variable} {line : Nat} {details : Details} :
    m.scopes.accepts m.scopes.current name = true → v.Starts V m.scopes.current →
      (v.type.isPointer = true → v.constant = false → v.value = none) →
        Effect V m { m.memory with scopes := m.scopes.declare m.scopes.current name v } [⟨.declare, line, details⟩]

/-- Memory is as it was, or has changed once. -/
theorem Effect.change {V : Value → Prop} {m : Machine σ} {mem : Memory} {ops : List Noted}
    (h : m.Effect V mem ops) : mem = m.memory ∨ Memory.Change V m.memory mem := by
  cases h with
  | look => exact .inl rfl
  | store found changeable fits known =>
    exact .inr (.store (.inl (sees_of_find? found)) (cell_of_find? found) changeable fits known)
  | storeElement found planned known =>
    obtain ⟨changeable, g, array, fits, -⟩ := planElement_ok planned
    exact .inr (.storeElement _ (.inl (sees_of_find? found)) (cell_of_find? found) changeable array fits known)
  | @storeThrough a line c v x _ key there address changeable fits known =>
    have change : Memory.Change V m.memory _ := .store (.inr ⟨a, key⟩) there changeable fits known
    rw [address] at change
    exact .inr change
  | put granted key known =>
    exact .inr (.put (Arena.access_ok granted).2.2.2 key known)
  | occupy placed => exact .inr (.occupy _ placed)
  | vacate member unbound => exact .inr (.vacate member unbound)
  | bind found free scalar placed =>
    exact .inr (.bind (sees_of_find? found) (cell_of_find? found) free scalar placed)
  | declare accepted starts => exact .inr (.declare accepted starts)

end Machine

namespace Exec

open Machine

/-- A step on memory has failed in the state in which it began, or it has had an effect. -/
def Acts (V : Value → Prop) (m : Machine σ) (Q : α → Machine σ → Prop) :
    EStateM.Result RuntimeError (Machine σ) α → Prop :=
  AllOrNothing m fun a m' =>
    (∃ mem ops, m.Effect V mem ops ∧ m' = m.withMemory mem (m.trace.recordAll ops)) ∧ Q a m'

theorem recordStore_eq (name : String) (type : DataType) (x : Value) (address : Option Nat) (old : Option Value)
    (line : Nat) (m : Machine σ) :
    ∃ op : Noted, op.Stores name type x ∧
      recordStore name type x address old line m = .ok () (m.withTrace (m.trace.recordAll [op])) := by
  unfold recordStore
  by_cases pointer : type.isPointer = true
  · rw [if_pos pointer]
    exact ⟨⟨_, _, _⟩, ⟨rfl, fun _ => ⟨rfl, rfl⟩, fun other => by cases pointer.symm.trans other⟩, rfl⟩
  · rw [if_neg pointer]
    exact ⟨⟨_, _, _⟩, ⟨rfl, fun same => absurd same pointer, fun _ => rfl⟩, rfl⟩

/-- The copy of a variable can be written after the variable itself. -/
theorem writeArena_mirrored {m : Machine σ} (inv : m.memory.Mirrors) {c : CellId} {v : Variable} {a : Nat}
    (there : m.scopes.cell? c = some v) (address : v.address = some a) (f : Variable → Variable) (x : Value)
    (line : Nat) :
    writeArena a x line { m with scopes := m.scopes.update c f } =
      .ok v.value (m.stored c f (some a) x m.trace) := by
  have granted : m.arena.access a = .ok (.mirror v.value) := (inv.mirrored there address).access inv.layout
  rw [writeArena_eq]
  dsimp only
  rw [granted]
  cases v.value <;> rfl

/-- A block that was just taken can be written. -/
theorem bindAddress_cases {m : Machine σ} (layout : m.arena.Layout) (name : String) (c : CellId) (v : Variable)
    (line : Nat) :
    AllOrNothing m (fun a m' => v.type.isArray = false ∧ m.arena.place v.type.size = .ok a ∧
        ∃ note, m' = m.placed c v a (m.trace.record .allocate line { subject := some name, address := some a, note }))
      (bindAddress name c v line m) := by
  unfold bindAddress
  split
  · rfl
  · rename_i scalar
    show AllOrNothing m _ ((allocate v.type.size v.type.render line >>= _) m)
    rw [bind_apply, allocate_eq]
    cases placed : m.arena.place v.type.size with
    | error fault => rfl
    | ok a =>
      obtain ⟨type, value, constant, address, owner⟩ := v
      cases value with
      | none => exact ⟨by simpa using scalar, rfl, _, rfl⟩
      | some x =>
        have written := writeArena_eq a x line { m with arena := m.arena.occupy a type.size type.render }
        rw [show Arena.access _ a = _ from layout.access_occupy placed type.render] at written
        show AllOrNothing m _ ((discard (writeArena a x line) >>= _) _)
        rw [bind_of_ok (discard_of_ok written)]
        exact ⟨by simpa using scalar, rfl, _, rfl⟩

theorem declareVariable_eq (name : String) (v : ScopeId → Variable) (line : Nat) (m : Machine σ) :
    declareVariable name v line m =
      if m.scopes.accepts m.scopes.current name then
        .ok () { m with scopes := m.scopes.declare m.scopes.current name (v m.scopes.current) }
      else .error ⟨.redeclaration name, line⟩ m := by
  unfold declareVariable
  rw [get_bind, get_bind]
  split <;> rfl

namespace Acts

variable {V : Value → Prop} {m : Machine σ} (name : String) (line : Nat)

theorem done {Q : α → Machine σ → Prop} {r : EStateM.Result RuntimeError (Machine σ) α} (h : Acts V m Q r) :
    AllOrNothing m Q r :=
  AllOrNothing.mono h fun _ _ there => there.2

theorem find : Acts V m (fun found m' => m'.find? name = some found) (Exec.find name line m) := by
  rw [find_eq]
  cases found : m.find? name with
  | none => rfl
  | some entry => exact ⟨⟨_, [], .look rfl, rfl⟩, found⟩

theorem readVariable :
    Acts V m (fun x m' => ∃ (c : CellId) (v : Variable), m'.memory.scopes.cells[c]? = some v ∧ v.value = some x)
      (Exec.readVariable name line m) := by
  refine AllOrNothing.find_bind fun ⟨c, v⟩ found => ?_
  dsimp only
  cases held : v.value with
  | none => rfl
  | some x => exact ⟨⟨_, [⟨.read, _, _⟩], .look rfl, rfl⟩, c, v, cell_of_find? found, held⟩

theorem readElement (indices : List Int) :
    Acts V m
      (fun x m' => ∃ (c : CellId) (v : Variable) (g : Grid Value) (i : Nat),
        m'.memory.scopes.cells[c]? = some v ∧ v.value = some (.array g) ∧ g.get? i = some x)
      (Exec.readElement name indices line m) := by
  refine AllOrNothing.find_bind fun ⟨c, v⟩ found => AllOrNothing.ofExcept_bind fun x there => ?_
  obtain ⟨g, i, array, held⟩ := element_ok there
  exact ⟨⟨_, [⟨.read, _, _⟩], .look rfl, rfl⟩, c, v, g, i, cell_of_find? found, array, held⟩

theorem readThrough (address : Nat) :
    Acts V m (fun x m' => ∃ a, m'.memory.arena.slot a = .holding x) (Exec.readThrough address line m) := by
  unfold Exec.readThrough
  rw [get_bind, Arena.read]
  cases granted : m.arena.access address with
  | error fault => rfl
  | ok slot =>
    obtain ⟨-, -, held, -⟩ := Arena.access_ok granted
    cases slot with
    | holding x => exact ⟨⟨_, [⟨.dereference, _, _⟩, ⟨.read, _, _⟩], .look rfl, rfl⟩, address, held⟩
    | _ => rfl

theorem counterValue (c : CellId) : Acts V m (fun _ _ => True) (Exec.counterValue c name line m) := by
  unfold Exec.counterValue
  rw [get_bind]
  rcases (m.scopes.cell? c).bind (·.value) with _ | (_ | _ | _ | _ | _)
  · rfl
  · exact ⟨⟨_, [], .look rfl, rfl⟩, trivial⟩
  all_goals rfl

theorem allocateBlock (size : Float) (tag : Option DataType) :
    Acts V m (fun x _ => ∃ a, x = .address a) (Exec.allocateBlock size tag line m) := by
  simp only [Exec.allocateBlock]
  split
  · rfl
  · rw [get_bind]
    split
    · rfl
    · rw [bind_apply, allocate_eq]
      cases placed : m.arena.place (Number.toWord64 size) with
      | error fault => rfl
      | ok start => exact ⟨⟨_, [⟨.allocate, _, _⟩], .occupy placed rfl, rfl⟩, start, rfl⟩

theorem freeBlock (v : Value) : Acts V m (fun _ _ => True) (Exec.freeBlock v line m) := by
  cases v with
  | address a =>
    simp only [Exec.freeBlock]
    rw [get_bind]
    split
    · rfl
    · rename_i allowed
      simp only [Bool.or_eq_true, not_or, Option.not_isSome_iff_eq_none] at allowed
      show Acts V m _ ((release a line >>= _) m)
      rw [bind_apply, release_eq]
      cases found : m.arena.freeable a with
      | error fault => rfl
      | ok block =>
        obtain ⟨member, rfl⟩ := Arena.freeable_ok found
        exact ⟨⟨_, [⟨.free, _, _⟩], .vacate member allowed.2, rfl⟩, trivial⟩
  | _ => rfl

theorem declareVariable_bind {v : ScopeId → Variable} (starts : ∀ id, (v id).Starts V id)
    (empty : ∀ id, (v id).type.isPointer = true → (v id).constant = false → (v id).value = none)
    {next : Unit → Exec σ β} {b : β} {details : Details}
    (noted : ∀ m, next () m = .ok b (m.withTrace (m.trace.record .declare line details)))
    {Q : β → Machine σ → Prop} (given : ∀ t, m.scopes.accepts m.scopes.current name = true →
      Q b { m with scopes := m.scopes.declare m.scopes.current name (v m.scopes.current), trace := t }) :
    Acts V m Q ((declareVariable name v line >>= next) m) := by
  rw [bind_apply, declareVariable_eq]
  by_cases accepted : m.scopes.accepts m.scopes.current name = true
  · rw [if_pos accepted]
    dsimp only
    rw [noted]
    exact ⟨⟨_, [⟨.declare, _, _⟩], .declare accepted (starts _) (empty _), rfl⟩, given _ accepted⟩
  · rw [if_neg accepted]
    rfl

theorem declare (type : DataType) : Acts V m (fun _ _ => True) (Exec.declare name type line m) := by
  refine AllOrNothing.ofExcept_bind fun value starts => ?_
  refine declareVariable_bind name line (fun id => ⟨rfl, rfl, fun x held => ?_, fun x held => ?_⟩)
    (fun id pointer _ => ?_) (fun _ => rfl) fun _ _ => trivial
  · obtain ⟨dims, element, g, rfl, blank, rfl⟩ := startValue_ok starts held
    simp [Variable.declared, Value.conforms, (Grid.blank?_eq_some blank).1]
  · exact .inr (startValue_ok starts held)
  · cases held : value with
    | none => rfl
    | some x =>
      obtain ⟨dims, element, g, rfl, -, -⟩ := startValue_ok starts held
      cases pointer

theorem declareConstant {x : Value} (known : V x) :
    Acts V m (fun _ _ => True) (Exec.declareConstant name x line m) := by
  unfold Exec.declareConstant
  cases typed : x.constantType? with
  | none => rfl
  | some type =>
    refine declareVariable_bind name line (fun id => ⟨rfl, rfl, ?_, ?_⟩) (fun id _ changeable => ?_) (fun _ => rfl)
      fun _ _ => trivial
    · rintro _ ⟨⟩
      exact Value.conforms_constantType? typed
    · rintro _ ⟨⟩
      exact .inl known
    · cases changeable

/-- The name of a loop variable stands for its cell when the loop begins. -/
theorem counterCell :
    Acts V m (fun c m' => m'.scopes.lookup? m'.scopes.current name = some c) (Exec.counterCell name line m) := by
  unfold Exec.counterCell
  rw [get_bind]
  cases found : m.find? name with
  | some entry => exact ⟨⟨_, [], .look rfl, rfl⟩, (find?_eq_some.1 found).1⟩
  | none =>
    refine declareVariable_bind (v := .declared .integer none) name line (fun _ => ⟨rfl, rfl, nofun, nofun⟩)
      (fun _ _ _ => rfl) (fun _ => rfl) fun t accepted => ?_
    let s' := m.scopes.declare m.scopes.current name (.declared .integer none m.scopes.current)
    have named : s'.Names m.scopes.current name m.scopes.cells.size :=
      (Scopes.names_declare accepted _).2 (.inr ⟨rfl, rfl, rfl⟩)
    have same : s'.current = m.scopes.current := congrArg (· - 1) (Scopes.depth_declare _)
    show s'.lookup? s'.current name = _
    rw [same]
    exact named.lookup?

variable {x : Value} (known : V x) {Q : Unit → Machine σ → Prop}

include known

theorem assignElement (indices : List Int) (given : ∀ c v plan t, m.find? name = some (c, v) →
      planElement v name indices x = .ok plan → Q () (m.stored c (·.setElement plan.position x) none x t)) :
    Acts V m Q (Exec.assignElement name indices x line m) := by
  refine AllOrNothing.find_bind fun ⟨c, v⟩ found => AllOrNothing.ofExcept_bind fun plan planned => ?_
  obtain ⟨op, stores, recorded⟩ := recordStore_eq (elementName name indices) plan.type x none plan.old line
    (m.stored c (·.setElement plan.position x) none x m.trace)
  show Acts V m Q (recordStore _ plan.type x none plan.old line (m.stored c _ none x m.trace))
  rw [recorded]
  exact ⟨⟨_, _, .storeElement found planned known stores.subject, rfl⟩, given c v plan _ found planned⟩

variable (inv : m.memory.Mirrors)

include inv

theorem assignVariable (given : ∀ c v t, m.find? name = some (c, v) →
      Q () (m.stored c (fun v => { v with value := some x }) v.address x t)) :
    Acts V m Q (Exec.assignVariable name x line m) := by
  refine AllOrNothing.find_bind fun ⟨c, v⟩ found => ?_
  dsimp only
  split
  · rfl
  · rename_i changeable
    refine AllOrNothing.ofExcept_bind fun _ checked => ?_
    let f : Variable → Variable := fun v => { v with value := some x }
    have stored : Acts V m Q
        (recordStore name v.type x v.address v.value line (m.stored c f v.address x m.trace)) := by
      obtain ⟨op, stores, recorded⟩ := recordStore_eq name v.type x v.address v.value line
        (m.stored c f v.address x m.trace)
      rw [recorded]
      exact ⟨⟨_, _, .store found (by simpa using changeable) (conforms_of_checkFit checked) known stores, rfl⟩,
        given c v _ found⟩
    cases address : v.address with
    | none =>
      rw [address] at stored
      exact stored
    | some a =>
      rw [address] at stored
      show Acts V m Q ((discard (writeArena a x line) >>= fun _ =>
        recordStore name v.type x (some a) v.value line) { m with scopes := m.scopes.update c f })
      rw [discard_bind, bind_of_ok (writeArena_mirrored inv (cell_of_find? found) address f x line)]
      exact stored

theorem assignThrough (a : Nat)
    (unbound : ∀ t, m.arena.isAllocated a = true → m.bound.lookup a = none →
      Q () { m with arena := m.arena.put a x, trace := t })
    (bound : ∀ c v t, m.bound.lookup a = some c → m.scopes.cell? c = some v → v.address = some a →
      Q () (m.stored c (fun v => { v with value := some x }) (some a) x t)) :
    Acts V m Q (Exec.assignThrough a x line m) := by
  simp only [Exec.assignThrough]
  split
  · rfl
  · rw [bind_of_ok (boundVariable?_eq a m)]
    cases key : m.bound.lookup a with
    | none =>
      show Acts V m Q ((writeArena a x line >>= _) m)
      rw [bind_apply, writeArena_eq]
      cases granted : m.arena.access a with
      | error fault => rfl
      | ok slot =>
        exact ⟨⟨_, _, .put granted key known, rfl⟩, unbound _ (Arena.access_ok granted).2.2.2 key⟩
    | some c =>
      obtain ⟨v, there, address⟩ := (inv.bound a c).1 key
      have there : m.scopes.cell? c = some v := there
      simp only [Option.bind_some, there, Option.map_some]
      split
      · rfl
      · rename_i changeable
        refine AllOrNothing.ofExcept_bind fun _ checked => ?_
        show Acts V m Q ((writeArena a x line >>= _) { m with scopes := m.scopes.update c _ })
        rw [bind_of_ok (writeArena_mirrored inv there address _ x line)]
        exact ⟨⟨_, _, .storeThrough key there address (by simpa using changeable)
          (conforms_of_checkFit checked) known, rfl⟩, bound c v _ key there address⟩

omit known in
theorem addressOf : Acts V m (fun _ _ => True) (Exec.addressOf name line m) := by
  refine AllOrNothing.find_bind fun ⟨c, v⟩ found => ?_
  dsimp only
  cases free : v.address with
  | some a => exact ⟨⟨_, [⟨.addressOf, _, _⟩], .look rfl, rfl⟩, trivial⟩
  | none =>
    show AllOrNothing m _ ((bindAddress name c v line >>= _) m)
    refine AllOrNothing.bind (bindAddress_cases inv.layout name c v line) ?_
    rintro a _ ⟨scalar, placed, note, rfl⟩
    exact ⟨⟨_, _, .bind found free scalar placed, rfl⟩, trivial⟩

end Acts

end Exec

namespace Exec

/-- A parameter is bound whatever was given for it. -/
theorem bindParameter_eq (callable : String) (p : Param) (b : Binding) (line : Nat) (m : Machine σ) :
    ∃ t, bindParameter callable p b line m =
      .ok () (m.withMemory { m.memory with scopes := m.scopes.receive p b } t) := by
  have bound (value : Option Value) (f : Scopes → Scopes) :
      ∃ t, (do
        if (← get).scopes.accepts m.scopes.current p.name then modifyScopes f
        record .declare line
          { subject := some p.name, value := value.map Value.display,
            note := some s!"{p.mode.keyword} parameter of {callable}" } : Exec σ Unit) m =
        .ok () (m.withMemory
          { m.memory with
            scopes := if m.scopes.accepts m.scopes.current p.name then f m.scopes else m.scopes } t) := by
    rw [get_bind]
    split
    · exact ⟨_, rfl⟩
    · exact ⟨_, rfl⟩
  cases b with
  | shared cell => exact bound _ (·.link m.scopes.current p.name cell)
  | copied v =>
    exact bound (some v) (·.declare m.scopes.current p.name (.declared p.type (some v) m.scopes.current))

theorem bindParameters_eq (callable : String) (line : Nat) (ps : List Param) (bs : List Binding)
    (m : Machine σ) :
    ∃ t, bindParameters callable line ps bs m =
      .ok () (m.withMemory { m.memory with scopes := m.scopes.receiveAll ps bs } t) := by
  induction ps generalizing bs m with
  | nil => exact ⟨m.trace, rfl⟩
  | cons p ps ih =>
    cases bs with
    | nil => exact ⟨m.trace, rfl⟩
    | cons b bs =>
      obtain ⟨t, first⟩ := bindParameter_eq callable p b line m
      obtain ⟨t', rest⟩ := ih bs (m.withMemory { m.memory with scopes := m.scopes.receive p b } t)
      exact ⟨t', by rw [bindParameters, bind_of_ok first, rest]; rfl⟩

/-- A call is always entered. -/
theorem enter_eq (d : Definition Stmt) (kind : CallableKind) (bindings : List Binding) (line : Nat)
    (m : Machine σ) :
    ∃ t, enter d kind bindings line m =
      .ok () { m.withMemory (m.memory.enter d.params bindings) t with
        calls := m.calls.push ⟨d.name, d.location.line, kind⟩ } := by
  obtain ⟨t, run⟩ := bindParameters_eq d.name line d.params bindings
    (m.withMemory { m.memory with scopes := m.scopes.push globalScope } m.trace)
  have opened : (modifyScopes (·.push globalScope) : Exec σ Unit) m =
      .ok () (m.withMemory { m.memory with scopes := m.scopes.push globalScope } m.trace) := rfl
  exact ⟨t, by rw [enter, bind_of_ok opened, bind_of_ok run]; rfl⟩

variable {m m' : Machine σ}

theorem memory_of_enter {d : Definition Stmt} {kind : CallableKind} {bindings : List Binding} {line : Nat}
    (entered : enter d kind bindings line m = .ok () m') : m'.memory = m.memory.enter d.params bindings := by
  obtain ⟨t, run⟩ := enter_eq d kind bindings line m
  cases entered.symm.trans run
  rfl

/-- No variable fails to end: the block of one that has an address is there. -/
theorem endVariable_eq (inv : m.memory.Mirrors) (id : ScopeId) (name : String) (c : CellId) (line : Nat) :
    ∃ t, endVariable id name c line m = .ok () (m.withMemory (m.memory.endVariable id c) t) := by
  unfold endVariable Memory.endVariable
  rw [get_bind]
  cases there : m.scopes.cell? c with
  | none => exact ⟨m.trace, by rw [show m.memory.scopes.cell? c = none from there]; rfl⟩
  | some v =>
    rw [show m.memory.scopes.cell? c = some v from there]
    dsimp only
    split
    · cases address : v.address with
      | none => exact ⟨m.trace, rfl⟩
      | some a =>
        have block := (inv.mirrored there address).block
        have released : discard (release a line)
            { m with
              scopes := m.scopes.update c fun v => { v with value := none, address := none }
              bound := m.bound.filter (·.1 != a) } =
            .ok () { m with
              scopes := m.scopes.update c fun v => { v with value := none, address := none }
              bound := m.bound.filter (·.1 != a)
              arena := m.arena.vacate ⟨a, v.type.size, v.type.render⟩ } :=
          bind_of_ok (by rw [release_eq, show m.arena.freeable a = _ from inv.layout.freeable_start block])
        refine ⟨m.trace.record .free line
          { subject := some name, address := some a, note := some "end of scope" }, ?_⟩
        show (discard (release a line) >>= _) _ = _
        rw [bind_of_ok released]
        rfl
    · exact ⟨m.trace, rfl⟩

theorem endVariables_eq (inv : m.memory.Mirrors) (id : ScopeId) (line : Nat) (names : List (String × CellId)) :
    ∃ t, endVariables id line names m =
      .ok () (m.withMemory ((names.map (·.2)).foldl (Memory.endVariable id) m.memory) t) := by
  induction names generalizing m with
  | nil => exact ⟨m.trace, rfl⟩
  | cons entry rest ih =>
    obtain ⟨name, c⟩ := entry
    obtain ⟨t, first⟩ := endVariable_eq inv id name c line
    obtain ⟨t', last⟩ := ih (m := m.withMemory (m.memory.endVariable id c) t) (inv.endVariable id c)
    exact ⟨t', by rw [endVariables, bind_of_ok first, last]; rfl⟩

/-- A call is always left. -/
theorem leave_eq (inv : m.memory.Mirrors) (line : Nat) :
    ∃ t, leave line m = .ok () { m.withMemory m.memory.leave t with calls := m.calls.pop } := by
  unfold leave Memory.leave
  rw [modify_bind, get_bind]
  dsimp only
  cases inner : m.scopes.innermost? with
  | none => exact ⟨m.trace, by rw [show m.memory.scopes.innermost? = none from inner]; rfl⟩
  | some scope =>
    let popped : Machine σ := { m with calls := m.calls.pop, scopes := m.scopes.pop }
    have still : popped.memory.Mirrors := by
      unfold Memory.Mirrors
      rw [show popped.memory.scopes.cells = m.scopes.cells from Scopes.cells_pop]
      exact inv
    obtain ⟨t, run⟩ := endVariables_eq still popped.scopes.depth line scope.names
    refine ⟨t, ?_⟩
    rw [show m.memory.scopes.innermost? = some scope from inner]
    exact run

/-- The caller is told how the body has ended, if the call can be left. -/
theorem closeCall_of_leave {line : Nat} (left : leave line m = .ok () m') (result : Except RuntimeError Flow) :
    outcome (closeCall line result m) = result.map (·, m.line) ∧ final (closeCall line result m) = m' := by
  unfold closeCall
  rw [bind_of_ok (rfl : currentLine m = .ok m.line m), bind_of_ok left]
  cases result <;> exact ⟨rfl, rfl⟩

end Exec

end Pseudocode
