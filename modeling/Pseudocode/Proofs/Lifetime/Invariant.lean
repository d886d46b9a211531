import Pseudocode.Proofs.Memory.Runs

/-!
How long variables live. A variable that has an address is still named in the scope that declared it,
and that scope is live (`Lifetimes`). So when a scope is closed, the variables that it declared are
among those it names, and all their blocks are given back; variables that it shares with a scope further
out are that scope's, and keep theirs.
-/

namespace Pseudocode.Memory

/-- A cell is named in the scope that declared its variable, which is live. -/
def Rooted (mem : Memory) (c : CellId) : Prop :=
  ∃ v name, mem.scopes.cells[c]? = some v ∧ mem.scopes.Names v.owner name c

/-- No name and no variable goes, and no variable changes its owner or loses its address. -/
structure Grows (mem mem' : Memory) : Prop where
  names {id : ScopeId} {name : String} {c : CellId} : mem.scopes.Names id name c → mem'.scopes.Names id name c
  cells {c : CellId} {v : Variable} : mem.scopes.cells[c]? = some v →
    ∃ v', mem'.scopes.cells[c]? = some v' ∧ v'.owner = v.owner ∧ ∀ a, v.address = some a → v'.address = some a

namespace Grows

variable {a b c mem mem' : Memory}

theorem refl (mem : Memory) : mem.Grows mem := ⟨fun h => h, fun {_ v} there => ⟨v, there, rfl, fun _ h => h⟩⟩

theorem trans (first : a.Grows b) (next : b.Grows c) : a.Grows c := by
  refine ⟨fun h => next.names (first.names h), fun there => ?_⟩
  obtain ⟨v', there', owner, address⟩ := first.cells there
  obtain ⟨v'', there'', owner', address'⟩ := next.cells there'
  exact ⟨v'', there'', owner'.trans owner, fun a h => address' a (address a h)⟩

theorem rooted (h : mem.Grows mem') {cell : CellId} (root : mem.Rooted cell) : mem'.Rooted cell := by
  obtain ⟨v, name, there, named⟩ := root
  obtain ⟨v', there', owner, -⟩ := h.cells there
  exact ⟨v', name, there', owner ▸ h.names named⟩

theorem of_scopes (same : mem'.scopes = mem.scopes) : mem.Grows mem' := by
  obtain ⟨s, arena, bound⟩ := mem
  obtain ⟨s', arena', bound'⟩ := mem'
  cases same
  exact ⟨fun h => h, fun {_ v} there => ⟨v, there, rfl, fun _ h => h⟩⟩

theorem update {f : Variable → Variable} {cell : CellId} {arena : Arena} {bound : List (Nat × CellId)}
    (owner : ∀ v, (f v).owner = v.owner)
    (address : ∀ v a, mem.scopes.cells[cell]? = some v → v.address = some a → (f v).address = some a) :
    mem.Grows ⟨mem.scopes.update cell f, arena, bound⟩ := by
  refine ⟨fun h => h, fun {d v} there => ?_⟩
  refine Scopes.cells_update there ⟨rfl, fun _ h => h⟩ ?_
  rintro rfl
  exact ⟨owner v, fun a => address v a there⟩

theorem addCell (v : Variable) : mem.Grows { mem with scopes := mem.scopes.addCell v } :=
  ⟨fun h => h, fun {_ w} there => ⟨w, Scopes.cells_addCell there, rfl, fun _ h => h⟩⟩

theorem link {id : ScopeId} {name : String} {cell : CellId} (accepted : mem.scopes.accepts id name = true) :
    mem.Grows { mem with scopes := mem.scopes.link id name cell } :=
  ⟨fun h => (Scopes.names_link accepted).2 (.inl h), fun {_ v} there => ⟨v, there, rfl, fun _ h => h⟩⟩

theorem push (parent : ScopeId) : mem.Grows { mem with scopes := mem.scopes.push parent } :=
  ⟨(Scopes.names_push parent).2, fun {_ v} there => ⟨v, there, rfl, fun _ h => h⟩⟩

end Grows

/-- Every name stands for a variable that a live scope names and owns, which is not further in than the
scope of the name; so does every variable that has an address. Every scope but the global one has the
global one as its parent. -/
structure Lifetimes (mem : Memory) : Prop where
  mirrors : mem.Mirrors
  global : 0 < mem.scopes.depth
  flat : mem.scopes.Flat
  named {id : ScopeId} {name : String} {c : CellId} : mem.scopes.Names id name c →
    ∃ v name', mem.scopes.cells[c]? = some v ∧ v.owner ≤ id ∧ mem.scopes.Names v.owner name' c
  rooted {c : CellId} {v : Variable} {a : Nat} :
    mem.scopes.cells[c]? = some v → v.address = some a → mem.Rooted c

/-- The variables that are passed around are named where they were declared, and no scope is opened or
closed but by a call. -/
def lifetime : Knowledge Memory where
  Later mem mem' := mem.Grows mem' ∧ mem'.scopes.depth = mem.scopes.depth
  value _ _ := True
  cell := Rooted
  refl mem := ⟨.refl mem, rfl⟩
  trans first next := ⟨first.1.trans next.1, next.2.trans first.2⟩
  value_later _ _ := trivial
  cell_later later root := later.1.rooted root

namespace Lifetimes

variable {mem mem' : Memory} (h : mem.Lifetimes)

include h

variable {v : Variable} {c : CellId} {name : String} {bs : List Binding} {ps : List Param}

theorem rooted_of_names {id : ScopeId} (named : mem.scopes.Names id name c) : mem.Rooted c := by
  obtain ⟨v, name', there, -, root⟩ := h.named named
  exact ⟨v, name', there, root⟩

theorem rooted_of_sees (visible : mem.Sees c) : mem.Rooted c := by
  obtain ⟨name, found⟩ := visible
  rcases Scopes.names_of_lookup? h.flat found with named | named <;> exact h.rooted_of_names named

theorem rooted_of_bound {a : Nat} (bound : mem.bound.lookup a = some c) : mem.Rooted c := by
  obtain ⟨v, there, placed⟩ := (h.mirrors.bound a c).1 bound
  exact h.rooted there placed

/-- One variable changes, but not who owns it. -/
theorem update {f : Variable → Variable} {cell : CellId} {arena : Arena} {bound : List (Nat × CellId)}
    (mirrors : Memory.Mirrors ⟨mem.scopes.update cell f, arena, bound⟩) (owner : ∀ v, (f v).owner = v.owner)
    (address : ∀ v a, mem.scopes.cells[cell]? = some v → (f v).address = some a → mem.Rooted cell) :
    Lifetimes ⟨mem.scopes.update cell f, arena, bound⟩ := by
  have now {d : CellId} {v : Variable} (there : mem.scopes.cells[d]? = some v) :
      ∃ w, (mem.scopes.update cell f).cells[d]? = some w ∧ w.owner = v.owner :=
    Scopes.cells_update there rfl fun _ => owner v
  have root {d : CellId} (root : mem.Rooted d) : Rooted ⟨mem.scopes.update cell f, arena, bound⟩ d := by
    obtain ⟨v, name, there, named⟩ := root
    obtain ⟨w, there', same⟩ := now there
    exact ⟨w, name, there', same ▸ named⟩
  refine ⟨mirrors, h.global, h.flat, fun {id name d} named => ?_, fun {d w a} there placed => ?_⟩
  · obtain ⟨v, name', there, le, own⟩ := h.named named
    obtain ⟨w, there', same⟩ := now there
    exact ⟨w, name', there', same ▸ le, same ▸ own⟩
  · rcases getElem?_modify_eq_some there with ⟨rfl, v, old, rfl⟩ | old
    · exact root (address v a old placed)
    · exact root (h.rooted old placed)

/-- A variable is added that no name stands for yet. -/
theorem addCell (free : v.address = none) (plain : v.Plain) :
    Lifetimes { mem with scopes := mem.scopes.addCell v } := by
  have grows : mem.Grows { mem with scopes := mem.scopes.addCell v } := .addCell v
  refine ⟨Mirror.push h.mirrors free plain, h.global, h.flat, fun {id name c} named => ?_,
    fun there placed => ?_⟩
  · obtain ⟨w, name', there, le, own⟩ := h.named named
    obtain ⟨w', there', same, -⟩ := grows.cells there
    exact ⟨w', name', there', same ▸ le, same ▸ own⟩
  · rcases getElem?_push_eq_some there with ⟨-, rfl⟩ | old
    · rw [free] at placed
      cases placed
    · exact grows.rooted (h.rooted old placed)

/-- The innermost scope gets a name for a variable of its own, or for one that another scope owns. -/
theorem link (accepted : mem.scopes.accepts mem.scopes.current name = true) (there : mem.scopes.cells[c]? = some v)
    (own : v.owner = mem.scopes.current ∨ mem.Rooted c) :
    Lifetimes { mem with scopes := mem.scopes.link mem.scopes.current name c } := by
  have grows : mem.Grows { mem with scopes := mem.scopes.link mem.scopes.current name c } :=
    .link accepted
  refine ⟨h.mirrors, ?_, h.flat.link, fun {id n x} named => ?_, fun there placed => ?_⟩
  · exact Nat.lt_of_lt_of_eq h.global Scopes.depth_link.symm
  · rcases (Scopes.names_link accepted).1 named with old | ⟨rfl, rfl, rfl⟩
    · obtain ⟨w, name', at', le, root⟩ := h.named old
      exact ⟨w, name', at', le, grows.names root⟩
    · rcases own with own | ⟨w, name', at', root⟩
      · exact ⟨v, n, there, Nat.le_of_eq own, own ▸ named⟩
      · have live := root.lt_depth
        exact ⟨w, name', at', Nat.le_sub_one_of_lt live, grows.names root⟩
  · exact grows.rooted (h.rooted there placed)

theorem declare (accepted : mem.scopes.accepts mem.scopes.current name = true) (free : v.address = none)
    (plain : v.Plain) (own : v.owner = mem.scopes.current) :
    Lifetimes { mem with scopes := mem.scopes.declare mem.scopes.current name v } ∧
      mem.Grows { mem with scopes := mem.scopes.declare mem.scopes.current name v } := by
  have added := h.addCell free plain
  have there : (mem.scopes.addCell v).cells[mem.scopes.cells.size]? = some v := Array.getElem?_push_size
  exact ⟨added.link accepted there (.inl own),
    (Grows.addCell v).trans (.link accepted)⟩

/-- A change adds or keeps names and owners; only what is visible gets an address. -/
theorem change {V : Value → Prop} (change : Change V mem mem') :
    mem'.Lifetimes ∧ lifetime.Later mem mem' := by
  have mirrors := change.mirrors h.mirrors
  cases change with
  | store _ there =>
    exact ⟨h.update mirrors (fun _ => rfl) fun _ _ at' placed => h.rooted at' placed,
      .update (fun _ => by rfl) fun _ _ _ placed => placed, rfl⟩
  | @storeElement c v g x i _ there =>
    have keeps (v : Variable) (a : Nat) : (v.setElement i x).address = some a ↔ v.address = some a := by simp
    exact ⟨h.update mirrors (fun _ => Variable.owner_setElement ..) fun v a at' placed =>
        h.rooted at' ((keeps v a).1 placed),
      .update (fun _ => Variable.owner_setElement ..) fun v a _ placed => (keeps v a).2 placed, rfl⟩
  | put | occupy | vacate =>
    exact ⟨⟨mirrors, h.global, h.flat, h.named, h.rooted⟩, .of_scopes rfl, rfl⟩
  | @bind c v a visible there free =>
    refine ⟨h.update mirrors (fun _ => rfl) fun _ _ _ _ => h.rooted_of_sees visible,
      .update (fun _ => by rfl) fun w b at' placed => ?_, rfl⟩
    cases there.symm.trans at'
    rw [free] at placed
    cases placed
  | declare accepted starts =>
    obtain ⟨declared, grows⟩ := h.declare accepted starts.address starts.plain starts.owner
    exact ⟨declared, grows, Scopes.depth_declare _⟩

theorem push : Lifetimes { mem with scopes := mem.scopes.push globalScope } := by
  have names {id : ScopeId} {name : String} {c : CellId} :
      (mem.scopes.push globalScope).Names id name c ↔ mem.scopes.Names id name c :=
    Scopes.names_push globalScope
  refine ⟨h.mirrors, ?_, h.flat.push h.global, fun named => ?_, fun there placed => ?_⟩
  · exact Nat.lt_of_lt_of_eq (Nat.succ_pos _) (Scopes.depth_push globalScope).symm
  · obtain ⟨v, name', there, le, own⟩ := h.named (names.1 named)
    exact ⟨v, name', there, le, names.2 own⟩
  · obtain ⟨v, name, there, own⟩ := h.rooted there placed
    exact ⟨v, name, there, names.2 own⟩

/-- A call opens a scope; what it shares belongs to scopes further out. -/
theorem enter (known : lifetime.bindings mem ps bs) :
    (mem.enter ps bs).Lifetimes ∧ mem.Grows (mem.enter ps bs) ∧
      (mem.enter ps bs).scopes.depth = mem.scopes.depth + 1 := by
  refine Scopes.receiveAll_of (P := fun s => Lifetimes { mem with scopes := s } ∧
    mem.Grows { mem with scopes := s } ∧ s.depth = mem.scopes.depth + 1) ?_ known
    ⟨h.push, .push globalScope, Scopes.depth_push globalScope⟩
  rintro s p b given ⟨inv, grows, depth⟩
  unfold Scopes.receive
  split
  · rename_i accepted
    cases b with
    | shared cell =>
      have root : Rooted { mem with scopes := s } cell := grows.rooted given
      have ⟨v, _, there, _⟩ := root
      exact ⟨inv.link accepted there (.inr root), grows.trans (.link accepted),
        Scopes.depth_link.trans depth⟩
    | copied v =>
      obtain ⟨declared, more⟩ := inv.declare accepted rfl (.declared_of_conforms given.2) rfl
      exact ⟨declared, grows.trans more, (Scopes.depth_declare _).trans depth⟩
  · exact ⟨inv, grows, depth⟩

/-- A variable that has an address is named in the innermost scope, if that owns it. -/
theorem mem_names_of_own {scope : Scope} (live : mem.scopes.scope? mem.scopes.current = some scope) {a : Nat}
    (there : mem.scopes.cells[c]? = some v) (placed : v.address = some a) (own : v.owner = mem.scopes.current) :
    c ∈ scope.names.map (·.2) := by
  obtain ⟨u, name, there', scope', live', named⟩ := h.rooted there placed
  cases there.symm.trans there'
  rw [own, live] at live'
  cases live'
  exact List.mem_map.2 ⟨(name, c), Scope.mem_names.2 named, rfl⟩

section Leave

variable (inner : 1 < mem.scopes.depth)

include inner

/-- A variable that has an address has kept it from before, and another scope owns it: one of the scope
that was closed was named there, and so has ended. -/
theorem owner_of_address_leave {c : CellId} {w : Variable} {a : Nat}
    (there : mem.leave.scopes.cells[c]? = some w)
    (placed : w.address = some a) : mem.scopes.cells[c]? = some w ∧ w.owner ≠ mem.scopes.current := by
  obtain ⟨scope, live, left⟩ := leave_of_inner inner
  rw [left, cells_endAll, Scopes.cells_pop] at there
  obtain ⟨v, old, changed⟩ := Option.map_eq_some_iff.1 there
  split at changed
  · subst changed
    cases placed
  · rename_i kept
    subst changed
    exact ⟨old, fun own => kept ⟨h.mem_names_of_own live old placed own, own⟩⟩

theorem leave : mem.leave.Lifetimes := by
  have names {id : ScopeId} {name : String} {c : CellId} :
      mem.leave.scopes.Names id name c ↔ id < mem.scopes.current ∧ mem.scopes.Names id name c :=
    names_leave inner
  refine ⟨h.mirrors.leave, ?_, flat_leave inner h.flat, fun {id name c} named => ?_,
    fun {c w a} there placed => ?_⟩
  · rw [depth_leave inner]
    exact Nat.sub_pos_of_lt inner
  · obtain ⟨low, before⟩ := names.1 named
    obtain ⟨v, name', there, le, own⟩ := h.named before
    obtain ⟨w, there', same⟩ := cells_leave inner there
    exact ⟨w, name', there', same ▸ le, same ▸ names.2 ⟨Nat.lt_of_le_of_lt le low, own⟩⟩
  · obtain ⟨old, outer⟩ := h.owner_of_address_leave inner there placed
    obtain ⟨v, name, old', own⟩ := h.rooted old placed
    cases old.symm.trans old'
    have live := own.lt_depth
    exact ⟨w, name, there, names.2 ⟨Nat.lt_of_le_of_ne (Nat.le_sub_one_of_lt live) outer, own⟩⟩

/-- The entries of the variables of the scope that is closed go, and no others. -/
theorem bound_leave (a : Nat) (c : CellId) :
    mem.leave.bound.lookup a = some c ↔
      mem.bound.lookup a = some c ∧ ∀ v, mem.scopes.cells[c]? = some v → v.owner ≠ mem.scopes.current := by
  rw [h.mirrors.leave.bound, h.mirrors.bound]
  constructor
  · rintro ⟨w, there, placed⟩
    obtain ⟨old, outer⟩ := h.owner_of_address_leave inner there placed
    refine ⟨⟨w, old, placed⟩, fun v old' => ?_⟩
    cases old.symm.trans old'
    exact outer
  · rintro ⟨⟨v, there, placed⟩, outer⟩
    exact ⟨v, cells_leave_outer inner there (outer v there), placed⟩

/-- The blocks of the variables of the scope that is closed go, and no others. -/
theorem blocks_leave (b : Block) :
    b ∈ mem.leave.arena.blocks ↔ b ∈ mem.arena.blocks ∧ ∀ (c : CellId) (v : Variable),
      mem.scopes.cells[c]? = some v → v.address = some b.start → v.owner ≠ mem.scopes.current := by
  obtain ⟨scope, live, left⟩ := leave_of_inner inner
  rw [left, h.mirrors.pop.blocks_endAll, Scopes.cells_pop]
  refine and_congr_right fun _ => ⟨fun kept c v there placed own => ?_, fun kept c _ v there own placed => ?_⟩
  · exact kept c (h.mem_names_of_own live there placed own) v there own placed
  · exact kept c v there placed own

/-- A variable of a scope further out keeps its address and its block. -/
theorem placed_leave {c : CellId} {v : Variable} {a : Nat} (there : mem.scopes.cells[c]? = some v)
    (outer : v.owner ≠ mem.scopes.current) (placed : v.address = some a) :
    mem.leave.bound.lookup a = some c ∧ ∃ b ∈ mem.leave.arena.blocks, b.start = a := by
  have still := cells_leave_outer inner there outer
  have copy := h.mirrors.leave.mirrored still placed
  exact ⟨(h.mirrors.leave.bound a c).2 ⟨v, still, placed⟩, _, copy.block, rfl⟩

end Leave

/-- When a call has been left, the caller's names and variables are there as before. -/
theorem later_leave (known : lifetime.bindings mem ps bs) (later : lifetime.Later (mem.enter ps bs) mem') :
    1 < mem'.scopes.depth ∧ lifetime.Later mem mem'.leave := by
  obtain ⟨-, opened, depth⟩ := h.enter known
  have deep : mem'.scopes.depth = mem.scopes.depth + 1 := later.2.trans depth
  have inner : 1 < mem'.scopes.depth := by have := h.global; omega
  have top : mem'.scopes.current = mem.scopes.depth := by
    show mem'.scopes.depth - 1 = _
    omega
  have grows := opened.trans later.1
  refine ⟨inner, ⟨fun named => ?_, fun {c v} there => ?_⟩, (depth_leave inner).trans top⟩
  · exact (names_leave inner).2 ⟨top ▸ named.lt_depth, grows.names named⟩
  · obtain ⟨v', there', owner, address⟩ := grows.cells there
    by_cases own : v'.owner = mem'.scopes.current
    · -- The id of the scope that is closed may be that of a variable which ended long ago.
      obtain ⟨w, there'', owner'⟩ := cells_leave inner there'
      refine ⟨w, there'', owner'.trans owner, fun a placed => ?_⟩
      obtain ⟨u, name, there₀, named⟩ := h.rooted there placed
      cases there.symm.trans there₀
      have live := named.lt_depth
      rw [← owner, own, top] at live
      exact absurd live (Nat.lt_irrefl _)
    · exact ⟨v', (cells_leave_outer inner there' own), owner, address⟩

/-- The variables that a call shares belong to scopes further out, as long as it runs. -/
theorem shared_later (known : lifetime.bindings mem ps bs) (later : lifetime.Later (mem.enter ps bs) mem')
    {p : Param} (shared : (p, .shared c) ∈ ps.zip bs) :
    ∃ v name, mem'.scopes.cells[c]? = some v ∧ v.owner < mem'.scopes.current ∧
      mem'.scopes.Names v.owner name c := by
  obtain ⟨-, opened, depth⟩ := h.enter known
  have grows := opened.trans later.1
  obtain ⟨v, name, there, named⟩ : mem.Rooted c := lifetime.binding_of_mem_zip known shared
  obtain ⟨w, there', owner, -⟩ := grows.cells there
  refine ⟨w, name, there', ?_, owner ▸ grows.names named⟩
  show w.owner < mem'.scopes.depth - 1
  rw [owner, later.2, depth]
  exact named.lt_depth

end Lifetimes

/-- Every step of a run keeps variables named as long as they have an address. -/
theorem Lifetimes.kept : MemoryKept lifetime Lifetimes where
  mirrors h := h.mirrors
  values _ := .true
  held _ _ _ := trivial
  item _ _ := trivial
  slot _ _ := trivial
  sees h visible := h.rooted_of_sees visible
  change h change := h.change change
  enter known h := (h.enter known).1
  leave known h later there := by
    obtain ⟨inner, back⟩ := h.later_leave known later
    exact ⟨there.leave inner, back, fun _ _ => trivial⟩

end Pseudocode.Memory
