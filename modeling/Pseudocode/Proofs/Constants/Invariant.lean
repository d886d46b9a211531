import Pseudocode.Proofs.Lifetime.Invariant

/-!
How long constants keep their values. A constant may be reached by names of several scopes and through its
address, and none of these ways lets a value be stored in it; it loses its value only when the scope that
declared it is closed, and then no scope has a name for it any more (`Endures`). Cells are not used again,
so this is true of any two states of a run, however many calls lie between them.
-/

namespace Pseudocode.Memory

/-- No live scope has a name for a cell. -/
def Ended (mem : Memory) (c : CellId) : Prop := ∀ id name, ¬ mem.scopes.Names id name c

/-- Constants are still constants, and have kept their values unless they have ended; what has ended does not
come back. -/
def Endures (mem mem' : Memory) : Prop :=
  ∀ (c : CellId) v, mem.scopes.cells[c]? = some v → v.constant = true →
    ∃ v', mem'.scopes.cells[c]? = some v' ∧ v'.constant = true ∧ (v'.value = v.value ∨ mem'.Ended c) ∧
      (mem.Ended c → mem'.Ended c)

variable {a b d mem mem' : Memory}

namespace Endures

theorem refl (mem : Memory) : mem.Endures mem := fun _ v there constant => ⟨v, there, constant, .inl rfl, id⟩

theorem trans (first : a.Endures b) (next : b.Endures d) : a.Endures d := by
  intro c v there constant
  obtain ⟨v', there', constant', value, ended⟩ := first c v there constant
  obtain ⟨v'', there'', constant'', value', ended'⟩ := next c v' there' constant'
  refine ⟨v'', there'', constant'', ?_, fun gone => ended' (ended gone)⟩
  rcases value with same | gone
  · exact value'.imp_left (·.trans same)
  · exact .inr (ended' gone)

theorem of_scopes (same : mem'.scopes = mem.scopes) : mem.Endures mem' := by
  intro c v there constant
  unfold Ended
  rw [same]
  exact ⟨v, there, constant, .inl rfl, id⟩

/-- A change of one variable, if it is no constant or stays as it is. -/
theorem update {f : Variable → Variable} {cell : CellId} {arena : Arena} {bound : List (Nat × CellId)}
    (keeps : ∀ v, mem.scopes.cells[cell]? = some v → v.constant = true →
      (f v).constant = true ∧ (f v).value = v.value) :
    mem.Endures ⟨mem.scopes.update cell f, arena, bound⟩ := by
  intro c v there constant
  obtain ⟨w, there', kept, value⟩ :=
    Scopes.cells_update (P := fun w => w.constant = true ∧ w.value = v.value) (x := cell) (f := f) there
      ⟨constant, rfl⟩ (by rintro rfl; exact keeps v there constant)
  exact ⟨w, there', kept, .inl value, id⟩

/-- A further name for a cell that has one. -/
theorem link {id : ScopeId} {name : String} {cell : CellId} (accepted : mem.scopes.accepts id name = true)
    (live : ∀ v, mem.scopes.cells[cell]? = some v → v.constant = true → ¬ mem.Ended cell) :
    mem.Endures { mem with scopes := mem.scopes.link id name cell } := by
  intro c v there constant
  refine ⟨v, there, constant, .inl rfl, fun gone i n named => ?_⟩
  rcases (Scopes.names_link accepted).1 named with old | ⟨-, -, rfl⟩
  · exact gone i n old
  · exact live v there constant gone

/-- A variable gets a cell of its own. -/
theorem declare {id : ScopeId} {name : String} (v : Variable) (accepted : mem.scopes.accepts id name = true) :
    mem.Endures { mem with scopes := mem.scopes.declare id name v } := by
  intro c w there constant
  refine ⟨w, Scopes.cells_addCell there, constant, .inl rfl, fun gone i n named => ?_⟩
  rcases (Scopes.names_declare accepted v).1 named with old | ⟨-, -, rfl⟩
  · exact gone i n old
  · obtain ⟨inside, -⟩ := Array.getElem?_eq_some_iff.1 there
    exact Nat.lt_irrefl _ inside

theorem change {V : Value → Prop} (change : Change V mem mem') : mem.Endures mem' := by
  cases change with
  | store _ there changeable | storeElement _ _ there changeable =>
    refine update fun w there' constant => ?_
    cases there.symm.trans there'
    rw [changeable] at constant
    cases constant
  | put | occupy | vacate => exact of_scopes rfl
  | bind => exact update fun _ _ constant => ⟨constant, rfl⟩
  | declare accepted => exact declare _ accepted

/-- A call opens a scope, whose names stand for new cells and for variables that have not ended. -/
theorem enter {ps : List Param} {bs : List Binding} (known : lifetime.bindings mem ps bs) :
    mem.Endures (mem.enter ps bs) := by
  have opened : mem.Endures { mem with scopes := mem.scopes.push globalScope } := fun _ v there constant =>
    ⟨v, there, constant, .inl rfl, fun gone i n named => gone i n ((Scopes.names_push globalScope).1 named)⟩
  refine (Scopes.receiveAll_of (P := fun s => mem.Grows { mem with scopes := s } ∧
    mem.Endures { mem with scopes := s }) ?_ known ⟨.push globalScope, opened⟩).2
  rintro s p b given ⟨grows, endures⟩
  unfold Scopes.receive
  split
  · rename_i accepted
    cases b with
    | shared cell =>
      have live : ¬ Ended { mem with scopes := s } cell := by
        obtain ⟨v, name, -, named⟩ := grows.rooted given
        exact fun gone => gone _ name named
      exact ⟨grows.trans (.link accepted), endures.trans (link accepted fun _ _ _ => live)⟩
    | copied v =>
      exact ⟨grows.trans ((Grows.addCell _).trans (.link accepted)), endures.trans (declare _ accepted)⟩
  · exact ⟨grows, endures⟩

/-- The variables that end when a scope is closed are its own, and those have no names further out. -/
theorem leave (h : mem.Lifetimes) : mem.Endures mem.leave := by
  by_cases inner : 1 < mem.scopes.depth
  · intro c v there constant
    have gone (before : mem.Ended c) : mem.leave.Ended c := fun id name named =>
      before id name ((names_leave inner).1 named).2
    obtain ⟨scope, -, left⟩ := leave_of_inner inner
    have now := congrArg (·.scopes.cells[c]?) left
    simp only [cells_endAll, Scopes.cells_pop, there, Option.map_some] at now
    split at now
    · rename_i own
      refine ⟨_, now, constant, .inr fun id name named => ?_, gone⟩
      obtain ⟨outer, before⟩ := (names_leave inner).1 named
      obtain ⟨w, -, there', le, -⟩ := h.named before
      cases there.symm.trans there'
      exact Nat.not_lt.2 le (own.2 ▸ outer)
    · exact ⟨v, now, constant, .inl rfl, gone⟩
  · have none : mem.scopes.innermost? = none := if_neg inner
    rw [Memory.leave, none]
    exact refl mem

end Endures

/-- What is known of variables and scopes is known of constants, too. -/
def endurance : Knowledge Memory where
  Later mem mem' := lifetime.Later mem mem' ∧ mem.Endures mem'
  value := lifetime.value
  cell := lifetime.cell
  refl mem := ⟨lifetime.refl mem, .refl mem⟩
  trans first next := ⟨lifetime.trans first.1 next.1, first.2.trans next.2⟩
  value_later later := lifetime.value_later later.1
  cell_later later := lifetime.cell_later later.1

theorem lifetime_bindings {ps : List Param} {bs : List Binding} (known : endurance.bindings mem ps bs) :
    lifetime.bindings mem ps bs := by
  refine endurance.bindings_imp (fun p b given => ?_) known
  cases b with
  | shared cell | copied v => exact given

/-- Every name of an earlier state is there, and the constants of that state endure. -/
structure Since (mem₀ mem : Memory) : Prop where
  lifetimes : mem.Lifetimes
  names {id : ScopeId} {name : String} {c : CellId} : mem₀.scopes.Names id name c → mem.scopes.Names id name c
  endures : mem₀.Endures mem

/-- A state is kept in mind while statements run from it: calls come back to where they were made. -/
theorem Since.kept (mem₀ : Memory) : MemoryKept endurance mem₀.Since where
  mirrors h := h.lifetimes.mirrors
  values _ := .true
  held _ _ _ := trivial
  item _ _ := trivial
  slot _ _ := trivial
  sees h visible := h.lifetimes.rooted_of_sees visible
  change h change := by
    obtain ⟨lifetimes, later⟩ := h.lifetimes.change change
    exact ⟨⟨lifetimes, fun named => later.1.names (h.names named), h.endures.trans (.change change)⟩,
      later, .change change⟩
  enter known h := by
    have known := lifetime_bindings known
    obtain ⟨lifetimes, grows, -⟩ := h.lifetimes.enter known
    exact ⟨lifetimes, fun named => grows.names (h.names named), h.endures.trans (.enter known)⟩
  leave known h later there := by
    have known := lifetime_bindings known
    obtain ⟨inner, back⟩ := h.lifetimes.later_leave known later.1
    have endures := ((Endures.enter known).trans later.2).trans (.leave there.lifetimes)
    exact ⟨⟨there.lifetimes.leave inner, fun named => back.1.names (h.names named), h.endures.trans endures⟩,
      ⟨back, endures⟩, fun _ _ => trivial⟩

end Pseudocode.Memory
