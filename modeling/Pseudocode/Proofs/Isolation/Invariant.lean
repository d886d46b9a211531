import Pseudocode.Proofs.Memory.Runs

/-!
Cells that a call cannot reach. While the body of a callable runs, names are looked up in its own scope
and among the global ones, and pointers lead to variables that were visible when their address was
taken. So cells that are named in neither scope and have no address stay as they are, whatever calls the
body makes (`Isolated.kept`).
-/

namespace Pseudocode.Memory

/-- Cells of which `U` holds are there and have no address, and neither the global scope nor one from
`base` on has a name for them. -/
structure Isolated (U : CellId → Prop) (base : ScopeId) (mem : Memory) : Prop where
  mirrors : mem.Mirrors
  flat : mem.scopes.Flat
  deep : base < mem.scopes.depth
  unlisted {id : ScopeId} {c : CellId} : mem.scopes.Lists id c → id = globalScope ∨ base ≤ id → ¬ U c
  unplaced {c : CellId} {v : Variable} {a : Nat} : mem.scopes.cells[c]? = some v → v.address = some a → ¬ U c
  old {c : CellId} : U c → c < mem.scopes.cells.size

/-- Cells of which `U` holds stay as they are, and are not passed around. -/
def isolation (U : CellId → Prop) : Knowledge Memory where
  Later mem mem' := mem'.scopes.depth = mem.scopes.depth ∧
    ∀ c, U c → mem'.scopes.cells[c]? = mem.scopes.cells[c]?
  value _ _ := True
  cell _ c := ¬ U c
  refl _ := ⟨rfl, fun _ _ => rfl⟩
  trans first next := ⟨next.1.trans first.1, fun c hidden => (next.2 c hidden).trans (first.2 c hidden)⟩
  value_later _ _ := trivial
  cell_later _ seen := seen

namespace Isolated

variable {U : CellId → Prop} {base : ScopeId} {mem mem' : Memory} (h : mem.Isolated U base)

include h

theorem base_le_current : base ≤ mem.scopes.current := Nat.le_sub_one_of_lt h.deep

theorem unhidden_of_names {name : String} {c : CellId}
    (found : mem.scopes.lookup? mem.scopes.current name = some c) : ¬ U c := by
  rcases Scopes.names_of_lookup? h.flat found with own | global
  · exact h.unlisted own.lists (.inr h.base_le_current)
  · exact h.unlisted global.lists (.inl rfl)

theorem unhidden_of_bound {a : Nat} {c : CellId} (bound : mem.bound.lookup a = some c) : ¬ U c := by
  obtain ⟨v, there, placed⟩ := (h.mirrors.bound a c).1 bound
  exact h.unplaced there placed

theorem unhidden_of_reaches {c : CellId} (reached : mem.Reaches c) : ¬ U c := by
  rcases reached with ⟨name, found⟩ | ⟨a, bound⟩
  · exact h.unhidden_of_names found
  · exact h.unhidden_of_bound bound

/-- One variable that can be reached changes. -/
theorem update {f : Variable → Variable} {cell : CellId} {arena : Arena} {bound : List (Nat × CellId)}
    (mirrors : Memory.Mirrors ⟨mem.scopes.update cell f, arena, bound⟩) (seen : ¬ U cell) :
    Isolated U base ⟨mem.scopes.update cell f, arena, bound⟩ ∧
      (isolation U).Later mem ⟨mem.scopes.update cell f, arena, bound⟩ := by
  refine ⟨⟨mirrors, h.flat, h.deep, h.unlisted, fun there placed => ?_, fun hidden => ?_⟩, rfl,
    fun c hidden => ?_⟩
  · rcases getElem?_modify_eq_some there with ⟨rfl, -⟩ | old
    · exact seen
    · exact h.unplaced old placed
  · exact Nat.lt_of_lt_of_eq (h.old hidden) Array.size_modify.symm
  · have other : cell ≠ c := fun same => seen (same ▸ hidden)
    exact Scopes.cells_update_of_ne other

/-- The innermost scope gets a name for a cell that can be reached. -/
theorem link {name : String} {c : CellId} (seen : ¬ U c) :
    Isolated U base { mem with scopes := mem.scopes.link mem.scopes.current name c } := by
  refine ⟨h.mirrors, h.flat.link, ?_, fun listed inside => ?_, h.unplaced, h.old⟩
  · exact Nat.lt_of_lt_of_eq h.deep Scopes.depth_link.symm
  · rcases Scopes.lists_of_link listed with before | ⟨-, rfl⟩
    · exact h.unlisted before inside
    · exact seen

/-- A variable is added. Its cell is new, and so not one of those that stay as they are. -/
theorem addCell {v : Variable} (free : v.address = none) (plain : v.Plain) :
    Isolated U base { mem with scopes := mem.scopes.addCell v } := by
  refine ⟨Mirror.push h.mirrors free plain, h.flat, h.deep, h.unlisted, fun there placed => ?_,
    fun hidden => ?_⟩
  · rcases getElem?_push_eq_some there with ⟨-, rfl⟩ | before
    · rw [free] at placed
      cases placed
    · exact h.unplaced before placed
  · exact Nat.lt_of_lt_of_eq (Nat.lt_succ_of_lt (h.old hidden)) (Array.size_push v).symm

theorem new : ¬ U mem.scopes.cells.size := fun hidden => Nat.lt_irrefl _ (h.old hidden)

theorem declare {name : String} {v : Variable} (free : v.address = none) (plain : v.Plain) :
    Isolated U base { mem with scopes := mem.scopes.declare mem.scopes.current name v } ∧
      (isolation U).Later mem { mem with scopes := mem.scopes.declare mem.scopes.current name v } := by
  refine ⟨(h.addCell free plain).link h.new, Scopes.depth_declare _, fun c hidden => ?_⟩
  exact Array.getElem?_push.trans (if_neg (Nat.ne_of_lt (h.old hidden)))

theorem change {V : Value → Prop} (change : Change V mem mem') :
    mem'.Isolated U base ∧ (isolation U).Later mem mem' := by
  have mirrors := change.mirrors h.mirrors
  cases change with
  | store reached | storeElement _ reached => exact h.update mirrors (h.unhidden_of_reaches reached)
  | bind visible => exact h.update mirrors (h.unhidden_of_reaches (.inl visible))
  | put | occupy | vacate =>
    exact ⟨⟨mirrors, h.flat, h.deep, h.unlisted, h.unplaced, h.old⟩, rfl, fun _ _ => rfl⟩
  | declare _ starts => exact h.declare starts.address starts.plain

theorem push : Isolated U base { mem with scopes := mem.scopes.push globalScope } := by
  have global : 0 < mem.scopes.depth := Nat.lt_of_le_of_lt (Nat.zero_le base) h.deep
  refine ⟨h.mirrors, h.flat.push global, ?_, fun listed => h.unlisted (Scopes.lists_of_push listed),
    h.unplaced, h.old⟩
  exact Nat.lt_of_lt_of_eq (Nat.lt_succ_of_lt h.deep) (Scopes.depth_push globalScope).symm

/-- A parameter gets a name for a cell that is new or was passed. -/
theorem receive {w : Memory} {p : Param} {b : Binding} (given : (isolation U).binding w p b) :
    Isolated U base { mem with scopes := mem.scopes.receive p b } ∧
      (isolation U).Later mem { mem with scopes := mem.scopes.receive p b } := by
  unfold Scopes.receive
  split
  · cases b with
    | shared cell => exact ⟨h.link given, Scopes.depth_link, fun _ _ => rfl⟩
    | copied v => exact h.declare rfl (.declared_of_conforms given.2)
  · exact ⟨h, (isolation U).refl mem⟩

/-- A call opens a scope. -/
theorem enter {ps : List Param} {bs : List Binding} (known : (isolation U).bindings mem ps bs) :
    (mem.enter ps bs).Isolated U base ∧
      (isolation U).Later { mem with scopes := mem.scopes.push globalScope } (mem.enter ps bs) := by
  refine Scopes.receiveAll_of (P := fun s => Isolated U base { mem with scopes := s } ∧
    (isolation U).Later { mem with scopes := mem.scopes.push globalScope } { mem with scopes := s }) ?_ known
    ⟨h.push, (isolation U).refl _⟩
  rintro s p b given ⟨inv, later⟩
  obtain ⟨received, more⟩ := inv.receive given
  exact ⟨received, (isolation U).trans later more⟩

/-- A call that is left closes a scope that was opened after `base`. -/
theorem leave (inner : base + 1 < mem.scopes.depth) :
    mem.leave.Isolated U base ∧ ∀ c, U c → mem.leave.scopes.cells[c]? = mem.scopes.cells[c]? := by
  have deep : 1 < mem.scopes.depth := Nat.lt_of_le_of_lt (Nat.le_add_left 1 base) inner
  obtain ⟨scope, live, left⟩ := leave_of_inner deep
  -- What ends is named in the scope that is closed, and that is one of those from `base` on.
  have same (c : CellId) (hidden : U c) : mem.leave.scopes.cells[c]? = mem.scopes.cells[c]? := by
    have other : c ∉ scope.names.map (·.2) := by
      rintro member
      obtain ⟨⟨name, _⟩, listed, rfl⟩ := List.mem_map.1 member
      exact h.unlisted ⟨scope, live, name, listed⟩ (.inr h.base_le_current) hidden
    rw [left, cells_endAll, Scopes.cells_pop]
    simp [other]
  refine ⟨⟨h.mirrors.leave, flat_leave deep h.flat, ?_, fun listed => h.unlisted (lists_of_leave deep listed),
    fun {c w a} there placed hidden => ?_, fun {c} hidden => ?_⟩, same⟩
  · rw [depth_leave deep]
    exact Nat.lt_sub_of_add_lt inner
  · rw [same c hidden] at there
    exact h.unplaced there placed hidden
  · obtain ⟨v, there⟩ : ∃ v, mem.scopes.cells[c]? = some v := ⟨_, Array.getElem?_eq_getElem (h.old hidden)⟩
    exact (Array.getElem?_eq_some_iff.1 ((same c hidden).trans there)).1

end Isolated

/-- Every step of a body leaves such cells as they are. -/
theorem Isolated.kept {U : CellId → Prop} {base : ScopeId} : MemoryKept (isolation U) (Isolated U base) where
  mirrors h := h.mirrors
  values _ := .true
  held _ _ _ := trivial
  item _ _ := trivial
  slot _ _ := trivial
  sees h visible := h.unhidden_of_reaches (.inl visible)
  change h change := h.change change
  enter known h := (h.enter known).1
  leave {mem mem' ps bs} known h later there := by
    obtain ⟨-, opened⟩ := h.enter known
    obtain ⟨depth, same⟩ := (isolation U).trans opened later
    have deep : mem'.scopes.depth = mem.scopes.depth + 1 := depth.trans (Scopes.depth_push globalScope)
    have inner : base + 1 < mem'.scopes.depth := deep ▸ Nat.succ_lt_succ h.deep
    obtain ⟨left, kept⟩ := there.leave inner
    refine ⟨left, ⟨?_, fun c hidden => ?_⟩, fun _ _ => trivial⟩
    · rw [depth_leave (Nat.lt_of_le_of_lt (Nat.le_add_left 1 base) inner)]
      exact congrArg (· - 1) deep
    · exact (kept c hidden).trans (same c hidden)

end Pseudocode.Memory
