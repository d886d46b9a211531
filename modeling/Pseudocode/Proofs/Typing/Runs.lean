import Pseudocode.Proofs.Arena.Representation
import Pseudocode.Proofs.Memory.Runs
import Pseudocode.Proofs.Termination
import Pseudocode.Proofs.Typing.Values

/-!
Whatever a run stores fits where it is stored. In every state that a run can reach the value of each
variable fits its declared type, and every array, in a variable or in the arena, has as many cells as
index tuples and holds elements that fit its own element type (`Memory.Typed`). What an array is
allowed to hold was settled when it was made, by the declaration of some variable (`Declares`).
-/

namespace Pseudocode

open Exec

variable {σ : Type}

namespace Memory

/-- Some variable was declared as an array with these dimensions and elements of this type. -/
def Declares (mem : Memory) (dims : List Bounds) (element : DataType) : Prop :=
  ∃ (c : CellId) (v : Variable), mem.scopes.cells[c]? = some v ∧ v.type = .array dims element

/-- No variable goes, and none changes its type. -/
def Extends (mem mem' : Memory) : Prop :=
  ∀ (c : CellId) (v : Variable), mem.scopes.cells[c]? = some v →
    ∃ v', mem'.scopes.cells[c]? = some v' ∧ v'.type = v.type

namespace Extends

variable {a b c mem mem' : Memory}

theorem refl (mem : Memory) : mem.Extends mem := fun _ v there => ⟨v, there, rfl⟩

theorem trans (first : a.Extends b) (next : b.Extends c) : a.Extends c := by
  intro cell v there
  obtain ⟨v', there', same⟩ := first cell v there
  obtain ⟨v'', there'', same'⟩ := next cell v' there'
  exact ⟨v'', there'', same'.trans same⟩

theorem of_cells (same : mem'.scopes.cells = mem.scopes.cells) : mem.Extends mem' :=
  fun _ v there => ⟨v, same ▸ there, rfl⟩

theorem update {f : Variable → Variable} (keeps : ∀ v, (f v).type = v.type) (cell : CellId) (arena : Arena)
    (bound : List (Nat × CellId)) : mem.Extends ⟨mem.scopes.update cell f, arena, bound⟩ := by
  intro d v there
  exact Scopes.cells_update there rfl fun _ => keeps v

theorem of_push {v : Variable} (added : mem'.scopes.cells = mem.scopes.cells.push v) : mem.Extends mem' := by
  intro d w there
  rw [added]
  exact ⟨w, Scopes.cells_addCell there, rfl⟩

theorem change {V : Value → Prop} (change : Change V mem mem') : mem.Extends mem' := by
  cases change with
  | store => exact update (fun _ => by rfl) _ _ _
  | storeElement => exact update (fun _ => Variable.type_setElement ..) _ _ _
  | put | occupy | vacate => exact of_cells rfl
  | bind => exact update (fun _ => by rfl) _ _ _
  | declare => exact of_push rfl

theorem endVariable (id : ScopeId) (c : CellId) : mem.Extends (mem.endVariable id c) := by
  unfold Memory.endVariable
  split
  · exact refl mem
  · split
    · exact update (fun _ => by rfl) _ _ _
    · exact refl mem

theorem leave : mem.Extends mem.leave :=
  leave_of (P := mem.Extends) (refl mem) (of_cells Scopes.cells_pop) fun _ id c later =>
    later.trans (endVariable id c)

theorem declares (h : mem.Extends mem') (dims : List Bounds) (element : DataType)
    (declared : mem.Declares dims element) : mem'.Declares dims element := by
  obtain ⟨c, v, there, type⟩ := declared
  obtain ⟨v', there', same⟩ := h c v there
  exact ⟨c, v', there', same.trans type⟩

theorem sound (h : mem.Extends mem') {x : Value} (known : x.Sound mem.Declares) : x.Sound mem'.Declares :=
  known.mono h.declares

end Extends

/-- What is known of the values that a run passes around. -/
def typing : Knowledge Memory where
  Later := Extends
  value mem v := v.Sound mem.Declares
  cell _ _ := True
  refl := .refl
  trans := .trans
  value_later later known := later.sound known
  cell_later _ _ := trivial

/-- Every value fits where it is stored, and all arrays are sound. -/
structure Typed (mem : Memory) : Prop where
  mirrors : mem.Mirrors
  fits {c : CellId} {v : Variable} {x : Value} :
    mem.scopes.cells[c]? = some v → v.value = some x → x.conforms v.type = true
  sound {c : CellId} {v : Variable} {x : Value} :
    mem.scopes.cells[c]? = some v → v.value = some x → x.Sound mem.Declares
  slots {a : Nat} {x : Value} : mem.arena.slot a = .holding x → x.Sound mem.Declares

namespace Typed

variable {mem mem' : Memory}

/-- It is enough to look at the values that are new. -/
theorem change (h : mem.Typed) (mirrors : mem'.Mirrors) (later : mem.Extends mem')
    (held : ∀ (c : CellId) (w : Variable) (x : Value),
      mem'.scopes.cells[c]? = some w → w.value = some x →
        (∃ v, mem.scopes.cells[c]? = some v ∧ v.type = w.type ∧ v.value = some x) ∨
          x.conforms w.type = true ∧ x.Sound mem'.Declares)
    (slots : ∀ (a : Nat) (x : Value), mem'.arena.slot a = .holding x →
      mem.arena.slot a = .holding x ∨ x.Sound mem'.Declares) : mem'.Typed where
  mirrors := mirrors
  fits {c w x} there value := by
    rcases held c w x there value with ⟨v, old, type, same⟩ | new
    · exact type ▸ h.fits old same
    · exact new.1
  sound {c w x} there value := by
    rcases held c w x there value with ⟨v, old, type, same⟩ | new
    · exact later.sound (h.sound old same)
    · exact new.2
  slots {a x} held := by
    rcases slots a x held with old | new
    · exact later.sound (h.slots old)
    · exact new

theorem holding_put {arena : Arena} {a b : Nat} {x y : Value} (held : (arena.put a x).slot b = .holding y) :
    arena.slot b = .holding y ∨ y = x := by
  rw [Arena.slot_put] at held
  split at held
  · cases held
    exact .inr rfl
  · exact .inl held

theorem holding_occupy {arena : Arena} {start size a : Nat} {tag : String} {x : Value}
    (held : (arena.occupy start size tag).slot a = .holding x) : arena.slot a = .holding x := by
  rw [Arena.slot_occupy] at held
  split at held
  · cases held
  · exact held

theorem holding_vacate {arena : Arena} {block : Block} {a : Nat} {x : Value}
    (held : (arena.vacate block).slot a = .holding x) : arena.slot a = .holding x := by
  rw [Arena.slot_vacate] at held
  split at held
  · cases held
  · exact held

/-- A variable is added, with a value that fits it, if it has one. -/
theorem push (h : mem.Typed) {v : Variable} {s : Scopes} (added : s.cells = mem.scopes.cells.push v)
    (mirrors : Memory.Mirrors { mem with scopes := s })
    (fits : ∀ x, v.value = some x → x.conforms v.type = true)
    (sound : ∀ x, v.value = some x → x.Sound (Declares { mem with scopes := s })) :
    Memory.Typed { mem with scopes := s } := by
  refine h.change mirrors (.of_push added) (fun c w x there held => ?_) fun a x held => .inl held
  rw [added] at there
  rcases getElem?_push_eq_some there with ⟨-, rfl⟩ | old
  · exact .inr ⟨fits x held, sound x held⟩
  · exact .inl ⟨w, old, rfl, held⟩

/-- A change stores values that fit. -/
theorem step (h : mem.Typed) (change : Change (typing.value mem) mem mem') : mem'.Typed := by
  have mirrors := change.mirrors h.mirrors
  have later := Extends.change change
  cases change with
  | @store c v x _ there _ fits known =>
    refine h.change mirrors later (fun d w y now held => ?_) fun a y held => ?_
    · rcases getElem?_modify_eq_some now with ⟨rfl, u, old, rfl⟩ | old
      · cases there.symm.trans old
        cases held
        exact .inr ⟨fits, later.sound known⟩
      · exact .inl ⟨w, old, rfl, held⟩
    · cases address : v.address with
      | none =>
        simp only [address] at held
        exact .inl held
      | some b =>
        simp only [address] at held
        rcases holding_put held with old | rfl
        · exact .inl old
        · exact .inr (later.sound known)
  | @storeElement c v g x i _ there _ array fits known =>
    refine h.change mirrors later (fun d w y now held => ?_) fun a y held => .inl held
    rcases getElem?_modify_eq_some now with ⟨rfl, u, old, rfl⟩ | old
    · cases there.symm.trans old
      rw [Variable.value_setElement array] at held
      cases held
      refine .inr ⟨?_, later.sound ((h.sound there array).set fits known i)⟩
      -- The dimensions are those of the array before, and nothing else is compared.
      have before := h.fits there array
      rw [Variable.type_setElement]
      cases type : v.type <;> rw [type] at before <;> exact before
    · exact .inl ⟨w, old, rfl, held⟩
  | put _ _ known =>
    refine h.change mirrors later (fun c w x there held => .inl ⟨w, there, rfl, held⟩) fun a y held => ?_
    rcases holding_put held with old | rfl
    · exact .inl old
    · exact .inr (later.sound known)
  | occupy tag placed =>
    exact h.change mirrors later (fun c w x there held => .inl ⟨w, there, rfl, held⟩)
      fun a y held => .inl (holding_occupy held)
  | vacate _ _ =>
    exact h.change mirrors later (fun c w x there held => .inl ⟨w, there, rfl, held⟩)
      fun a y held => .inl (holding_vacate held)
  | @bind c v a _ there _ _ _ =>
    refine h.change mirrors later (fun d w y now held => ?_) fun b y held => ?_
    · rcases getElem?_modify_eq_some now with ⟨rfl, u, old, rfl⟩ | old
      · exact .inl ⟨u, old, rfl, held⟩
      · exact .inl ⟨w, old, rfl, held⟩
    · cases value : v.value with
      | none =>
        simp only [value] at held
        exact .inl (holding_occupy held)
      | some x =>
        simp only [value] at held
        rcases holding_put held with old | rfl
        · exact .inl (holding_occupy old)
        · exact .inr (later.sound (h.sound there value))
  | @declare name v _ starts =>
    refine h.push rfl mirrors starts.fits fun x held => ?_
    rcases starts.known x held with known | ⟨dims, element, g, type, blank, rfl⟩
    · exact later.sound known
    · exact .blank blank ⟨mem.scopes.cells.size, v, Array.getElem?_push_size, type⟩

/-- The parameters of a call are given values that fit. -/
theorem enter (h : mem.Typed) {ps : List Param} {bs : List Binding} (known : typing.bindings mem ps bs) :
    (mem.enter ps bs).Typed ∧ mem.Extends (mem.enter ps bs) := by
  have opened : Memory.Typed { mem with scopes := mem.scopes.push globalScope } ∧
      mem.Extends { mem with scopes := mem.scopes.push globalScope } :=
    ⟨h.change h.mirrors (.of_cells rfl) (fun c w x there held => .inl ⟨w, there, rfl, held⟩)
      fun a x held => .inl held, .of_cells rfl⟩
  refine Scopes.receiveAll_of (P := fun s =>
    Memory.Typed { mem with scopes := s } ∧ mem.Extends { mem with scopes := s }) ?_ known opened
  intro s p b given ⟨typed, later⟩
  unfold Scopes.receive
  split
  · cases b with
    | shared cell =>
      refine ⟨typed.change typed.mirrors (.of_cells rfl) (fun c w x there held => .inl ⟨w, there, rfl, held⟩)
        fun a x held => .inl held, later.trans (.of_cells rfl)⟩
    | copied v =>
      let s' := s.declare s.current p.name (.declared p.type (some v) s.current)
      have more : Memory.Extends { mem with scopes := s } { mem with scopes := s' } := .of_push rfl
      refine ⟨typed.push (s := s') rfl (Mirror.push typed.mirrors rfl (.declared_of_conforms given.2)) ?_ ?_,
        later.trans more⟩
      · rintro x ⟨⟩
        exact given.2
      · rintro x ⟨⟩
        exact more.sound (later.sound given.1)
  · exact ⟨typed, later⟩

/-- A variable that ends loses its value. -/
theorem endVariable (h : mem.Typed) (id : ScopeId) (c : CellId) : (mem.endVariable id c).Typed := by
  have mirrors := h.mirrors.endVariable id c
  have later : mem.Extends (mem.endVariable id c) := .endVariable id c
  unfold Memory.endVariable at mirrors later ⊢
  cases there : mem.scopes.cell? c with
  | none => exact h
  | some v =>
    rw [there] at mirrors later
    by_cases own : v.owner = id
    · simp only [if_pos own] at mirrors later ⊢
      refine h.change mirrors later (fun d w y now held => ?_) fun a y held => ?_
      · rcases getElem?_modify_eq_some now with ⟨rfl, u, old, rfl⟩ | old
        · cases held
        · exact .inl ⟨w, old, rfl, held⟩
      · cases address : v.address with
        | none =>
          simp only [address] at held
          exact .inl held
        | some b =>
          simp only [address] at held
          exact .inl (holding_vacate held)
    · simp only [if_neg own]
      exact h

theorem leave (h : mem.Typed) : mem.leave.Typed := by
  have same : (Memory.mk mem.scopes.pop mem.arena mem.bound).scopes.cells = mem.scopes.cells :=
    Scopes.cells_pop
  refine leave_of h ?_ fun _ id c there => there.endVariable id c
  exact h.change h.mirrors.pop (.of_cells same) (fun c w x there held => .inl ⟨w, same ▸ there, rfl, held⟩)
    fun a x held => .inl held

/-- Every step of a run keeps what is stored well typed. -/
theorem kept : MemoryKept typing Typed where
  mirrors h := h.mirrors
  values mem := Value.Sound.closed mem.Declares
  held h there held := h.sound there held
  item known held := known.grid.2.2.2 _ _ held
  slot h held := h.slots held
  sees _ _ := trivial
  change h change := ⟨h.step change, .change change⟩
  enter known h := (h.enter known).1
  leave known h later there :=
    ⟨there.leave, ((h.enter known).2.trans later).trans .leave, fun _ known => Extends.leave.sound known⟩

theorem initial (size : Nat) : Memory.Typed ⟨.initial, .empty size, []⟩ where
  mirrors := .empty size (Arena.Layout.empty size)
  fits := by simp [Scopes.initial]
  sound := by simp [Scopes.initial]
  slots {a x} held := by
    rw [Arena.slot_empty] at held
    cases held

end Typed

end Memory

theorem Reachable.typed {p : Program} {host : Host σ} {config : Config} {draws : Draws} {state : σ}
    {m : Machine σ} (reached : Reachable p host config draws state m) : m.memory.Typed :=
  (Memory.Typed.kept.kept _).reachable (.initial config.arenaSize) reached

/-- Only functions stand for a call in an expression, besides the built-in ones. -/
theorem isFunction_of_callee {ctx : Context σ} {name : String} {d : Definition Stmt}
    (called : callee ctx name = .ok (.function d)) : d.isFunction = true := by
  unfold callee at called
  split at called
  · split at called <;> cases called
    assumption
  · split at called <;> cases called
    assumption
  · cases called
  · cases called

/-- A function returns nothing that does not fit its type. -/
theorem conforms_of_callFunction {run : Runner σ} {d : Definition Stmt} {bindings : List Binding} {line : Nat}
    {m m' : Machine σ} {v : Value} (function : d.isFunction = true)
    (returned : callFunction run d bindings line m = .ok v m') :
    ∃ type, d.returns = some type ∧ v.conforms type = true := by
  obtain ⟨type, returns⟩ := Option.isSome_iff_exists.1 function
  refine ⟨type, returns, ?_⟩
  rw [Semantics.callFunction_eq] at returned
  obtain ⟨⟨flow, last⟩, m₁, -, result⟩ := bind_eq_ok returned
  rcases flow with _ | (_ | x) | _
  · cases result
  · cases result
  · simp only [functionResult, returns] at result
    split at result
    · cases result
      assumption
    · cases result
  · cases result

/-- In every state that a run can reach: the value of a variable passes the check of its declared type,
so that it is one of the values that the type takes; every array, in a variable or in the arena, has as
many cells as index tuples, and its elements fit its own element type. And a call of a function, in
whatever state, gives nothing that does not fit the type that the function returns. -/
theorem typed_of_reachable {p : Program} {host : Host σ} {config : Config} {draws : Draws} {state : σ}
    {m : Machine σ} (reached : Reachable p host config draws state m) :
    (∀ c v x, m.scopes.cell? c = some v → v.value = some x → x.conforms v.type = true ∧ x.Fits v.type) ∧
    (∀ c v x, m.scopes.cell? c = some v → v.value = some x → x.Sound fun _ _ => True) ∧
    (∀ a x, m.arena.slot a = .holding x → x.Sound fun _ _ => True) ∧
    ∀ (ctx : Context σ) name args location d (m₁ m₂ : Machine σ) v, callee ctx name = .ok (.function d) →
      eval ctx (.call name args location) m₁ = .ok v m₂ →
        ∃ type, d.returns = some type ∧ v.conforms type = true ∧ v.Fits type := by
  have typed := reached.typed
  refine ⟨fun c v x there held => ?_, fun c v x there held => ?_, fun a x held => ?_, ?_⟩
  · have fits := typed.fits there held
    exact ⟨fits, (Value.conforms_iff_fits _ _).1 fits⟩
  · exact (typed.sound there held).mono fun _ _ _ => trivial
  · exact (typed.slots held).mono fun _ _ _ => trivial
  · intro ctx name args location d m₁ m₂ v called returned
    rw [eval, called] at returned
    obtain ⟨_, _, found, rest⟩ := bind_eq_ok returned
    cases found
    obtain ⟨run, _, -, rest⟩ := bind_eq_ok rest
    obtain ⟨bindings, _, -, rest⟩ := bind_eq_ok rest
    obtain ⟨type, returns, fits⟩ := conforms_of_callFunction (isFunction_of_callee called) rest
    exact ⟨type, returns, fits, (Value.conforms_iff_fits _ _).1 fits⟩

/-- The element at a position of a variable that holds an array. -/
def Machine.item? (m : Machine σ) (c : CellId) (i : Nat) : Option Value :=
  match (m.scopes.cell? c).bind (·.value) with
  | some (.array g) => g.get? i
  | _ => none

theorem Machine.item?_eq_some {m : Machine σ} {c : CellId} {i : Nat} {x : Value}
    (held : m.item? c i = some x) :
    ∃ v g, m.scopes.cell? c = some v ∧ v.value = some (.array g) ∧ g.get? i = some x := by
  unfold item? at held
  split at held
  · rename_i g array
    obtain ⟨v, there, value⟩ := Option.bind_eq_some_iff.1 array
    exact ⟨v, g, there, value, held⟩
  · cases held

/-- A function that returns a character, which becomes an element of an array. -/
def firstLetter : Program where
  statements :=
    [.define ⟨"First", [], some .char, [.giveBack (some (.literal (.char 'x') ⟨2, 10⟩)) ⟨2, 3⟩], ⟨1, 1⟩⟩,
      .declare "a" (.array [⟨1, 2⟩] .char) ⟨4, 1⟩,
      .assign (.element "a" [.literal (.number 2) ⟨5, 3⟩] ⟨5, 1⟩) (.call "First" [] ⟨5, 9⟩) ⟨5, 1⟩]

theorem firstLetter_typed :
    ∃ (m : Machine Script) (v : Variable) (g : Grid Value) (x : Value),
      Reachable firstLetter Script.host { arenaSize := 1030 } 0 {} m ∧ m.scopes.cell? 0 = some v ∧
      v.value = some (.array g) ∧ g.get? 1 = some x ∧ x.text? = some "x" ∧
      (Value.array g).Fits v.type ∧ (Value.array g).Sound fun _ _ => True := by
  have reached := reachable_final firstLetter Script.host { arenaSize := 1030 } 0 {}
  have shown : ((final (firstLetter.exec Script.host { arenaSize := 1030 }
      (.initial { arenaSize := 1030 } 0 {}))).item? 0 1).bind Value.text? = some "x" := by
    decide +kernel
  obtain ⟨x, item, text⟩ := Option.bind_eq_some_iff.1 shown
  obtain ⟨v, g, there, value, held⟩ := Machine.item?_eq_some item
  have typed := typed_of_reachable reached
  exact ⟨_, v, g, x, reached, there, value, held, text, (typed.1 0 v _ there value).2,
    typed.2.1 0 v _ there value⟩

/-- In every state that a run can reach, an array variable with bounds holds an array of exactly these,
and all elements fit the element type of the array that it holds. That type is one with which some
variable of the run was declared, with the bounds of the array. So if no two variables were declared
with these bounds and different element types, then all elements fit the element type declared. -/
theorem elements_of_reachable {p : Program} {host : Host σ} {config : Config} {draws : Draws} {state : σ}
    {m : Machine σ} (reached : Reachable p host config draws state m) {c : CellId} {v : Variable}
    {dims : List Bounds} {element : DataType} {g : Grid Value} (there : m.scopes.cell? c = some v)
    (type : v.type = .array dims element) (held : v.value = some (.array g)) :
    (dims ≠ [] → g.dims = dims) ∧ (∀ i x, g.get? i = some x → x.Fits g.element) ∧
    (∃ d w, m.scopes.cell? d = some w ∧ w.type = .array g.dims g.element) ∧
    ((∀ d w other, m.scopes.cell? d = some w → w.type = .array g.dims other → other = element) →
      g.element = element ∧ ∀ i x, g.get? i = some x → x.Fits element) := by
  have typed := reached.typed
  obtain ⟨⟨d, w, declared, made⟩, -, conforming, -⟩ := (typed.sound there held).grid
  have fits (i : Nat) (x : Value) (item : g.get? i = some x) : x.Fits g.element :=
    (Value.conforms_iff_fits _ _).1 (conforming i x item)
  have shape := (Value.conforms_iff_fits _ _).1 (typed.fits there held)
  rw [type] at shape
  obtain ⟨_, ⟨⟩, bounds⟩ := shape
  refine ⟨bounds, fits, ⟨d, w, declared, made⟩, fun alike => ?_⟩
  have same := alike d w g.element declared made
  exact ⟨same, same ▸ fits⟩

theorem firstLetter_elements :
    ∃ (m : Machine Script) (v : Variable) (g : Grid Value) (x : Value),
      Reachable firstLetter Script.host { arenaSize := 1030 } 0 {} m ∧ m.scopes.cell? 0 = some v ∧
      v.type = .array [⟨1, 2⟩] .char ∧ v.value = some (.array g) ∧ g.get? 1 = some x ∧ g.dims = [⟨1, 2⟩] ∧
      x.Fits .char := by
  let m := final (firstLetter.exec Script.host { arenaSize := 1030 } (.initial { arenaSize := 1030 } 0 {}))
  have reached : Reachable firstLetter Script.host { arenaSize := 1030 } 0 {} m :=
    reachable_final firstLetter Script.host { arenaSize := 1030 } 0 {}
  have shown : (m.item? 0 1).isSome = true := by decide +kernel
  have types : m.scopes.cells.map (·.type) = #[.array [⟨1, 2⟩] .char] := by decide +kernel
  have typeAt (d : CellId) (w : Variable) (there : m.scopes.cell? d = some w) :
      w.type = .array [⟨1, 2⟩] .char := by
    have listed : (m.scopes.cells.map (·.type))[d]? = some w.type := by
      rw [Array.getElem?_map, show m.scopes.cells[d]? = some w from there]
      rfl
    rw [types] at listed
    exact List.mem_singleton.1 (List.mem_of_getElem? (by simpa using listed))
  obtain ⟨x, item⟩ := Option.isSome_iff_exists.1 shown
  obtain ⟨v, g, there, value, held⟩ := Machine.item?_eq_some item
  have type := typeAt 0 v there
  obtain ⟨bounds, -, -, fits⟩ := elements_of_reachable reached there type value
  refine ⟨m, v, g, x, reached, there, type, value, held, bounds (by simp),
    (fits fun d w other made named => ?_).2 1 x held⟩
  have same := typeAt d w made
  rw [named] at same
  exact (DataType.array.inj same).2

/-- Text that is stored in an array of texts, which then moves to an array of numbers with the same
bounds. -/
def arrayMove : Program where
  statements :=
    [.declare "a" (.array [⟨1, 2⟩] .integer) ⟨1, 1⟩, .declare "b" (.array [⟨1, 2⟩] .string) ⟨2, 1⟩,
      .assign (.element "b" [.literal (.number 1) ⟨3, 3⟩] ⟨3, 1⟩) (.literal (.string "x") ⟨3, 9⟩) ⟨3, 1⟩,
      .assign (.identifier "a" ⟨4, 1⟩) (.identifier "b" ⟨4, 6⟩) ⟨4, 1⟩]

/-- The element type of a variable is not compared when a whole array is stored. -/
theorem arrayMove_text_in_integers :
    ∃ (m : Machine Script) (v : Variable) (g : Grid Value) (x : Value),
      Reachable arrayMove Script.host { arenaSize := 1030 } 0 {} m ∧ m.scopes.cell? 0 = some v ∧
      v.type = .array [⟨1, 2⟩] .integer ∧ v.value = some (.array g) ∧ g.get? 0 = some x ∧
        ¬ x.Fits .integer := by
  let m := final (arrayMove.exec Script.host { arenaSize := 1030 } (.initial { arenaSize := 1030 } 0 {}))
  have shown : (m.item? 0 0).map (Value.conforms .integer) = some false := by decide +kernel
  have types : (m.scopes.cell? 0).map (·.type) = some (.array [⟨1, 2⟩] .integer) := by decide +kernel
  obtain ⟨x, item, misfit⟩ := Option.map_eq_some_iff.1 shown
  obtain ⟨v, g, there, value, held⟩ := Machine.item?_eq_some item
  rw [there] at types
  refine ⟨m, v, g, x, reachable_final _ _ _ _ _, there, Option.some.inj types, value, held, fun fits => ?_⟩
  rw [← Value.conforms_iff_fits, misfit] at fits
  cases fits

end Pseudocode
