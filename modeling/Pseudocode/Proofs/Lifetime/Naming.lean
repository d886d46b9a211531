import Pseudocode.Proofs.Lifetime.Invariant

/-!
What a name stands for while statements run. A scope that is open keeps its names, and a name that it gets
stands for a new variable. So a name goes on standing for the same variable, unless it is a global variable's
and the innermost scope has got a variable of its own by that name (`Lifetimes.lookup_later`).
-/

namespace Pseudocode

namespace Scopes

variable {s : Scopes} {name : String} {c : CellId}

/-- The innermost scope has a name. -/
def Owns (s : Scopes) (name : String) : Prop := ∃ c, s.Names s.current name c

/-- A global name is found where the innermost scope does not have it. -/
theorem lookup?_of_global (flat : s.Flat) (named : s.Names globalScope name c) (hidden : ¬ s.Owns name) :
    s.lookup? s.current name = some c := by
  have inner : s.current ≠ globalScope := fun top => hidden ⟨c, top ▸ named⟩
  obtain ⟨fuel, depth⟩ : ∃ fuel, s.depth = fuel + 2 := by
    have : s.depth - 1 ≠ 0 := inner
    exact ⟨s.depth - 2, by omega⟩
  have live : s.current < s.stack.size := Nat.sub_one_lt (Nat.ne_of_gt named.lt_depth)
  have own : (s.stack[s.current]).get? name = none :=
    Option.eq_none_iff_forall_ne_some.2 fun d found =>
      hidden ⟨d, _, Array.getElem?_eq_getElem live, found⟩
  obtain ⟨scope, there, found⟩ := named
  have parent := flat s.current _ (Array.getElem?_eq_getElem live)
  rw [if_neg inner] at parent
  rw [lookup?, depth, lookupFrom, scope?, Array.getElem?_eq_getElem live]
  simp only [own, parent]
  rw [lookupFrom, there]
  simp only [found]

end Scopes

namespace Memory

variable {mem mem' : Memory}

theorem Grows.size_le (grows : mem.Grows mem') : mem.scopes.cells.size ≤ mem'.scopes.cells.size := by
  refine Nat.le_of_not_lt fun fewer => ?_
  obtain ⟨v, there, -⟩ := grows.cells (Array.getElem?_eq_getElem fewer)
  exact Nat.lt_irrefl _ (Array.getElem?_eq_some_iff.1 there).1

/-- The scopes that were open before have got no names but for new variables. -/
def Fresh (mem mem' : Memory) : Prop :=
  ∀ {id : ScopeId} {name : String} {c : CellId}, id < mem.scopes.depth → mem'.scopes.Names id name c →
    mem.scopes.Names id name c ∨ mem.scopes.cells.size ≤ c

/-- What is known of the lifetimes of variables, and that names are given to new variables. -/
def naming : Knowledge Memory where
  Later mem mem' := lifetime.Later mem mem' ∧ mem.Fresh mem'
  value _ _ := True
  cell := Rooted
  refl mem := ⟨lifetime.refl mem, fun _ named => .inl named⟩
  trans {a b c} first next := by
    refine ⟨lifetime.trans first.1 next.1, fun {id name d} live named => ?_⟩
    rcases next.2 (Nat.lt_of_lt_of_eq live first.1.2.symm) named with named | new
    · exact first.2 live named
    · exact .inr (Nat.le_trans first.1.1.size_le new)
  value_later _ _ := trivial
  cell_later later root := later.1.1.rooted root

theorem naming_bindings {ps : List Param} {bs : List Binding} (known : naming.bindings mem ps bs) :
    lifetime.bindings mem ps bs := by
  refine naming.bindings_imp (fun p b given => ?_) known
  cases b with
  | copied v | shared cell => exact given

/-- The scope of a call is the only one that gets names when it is opened. -/
theorem names_of_enter {ps : List Param} {bs : List Binding} (known : lifetime.bindings mem ps bs) {id : ScopeId}
    {name : String} {c : CellId} (live : id < mem.scopes.depth) (named : (mem.enter ps bs).scopes.Names id name c) :
    mem.scopes.Names id name c := by
  refine (Scopes.receiveAll_of (P := fun s => s.depth = mem.scopes.depth + 1 ∧
    (s.Names id name c → mem.scopes.Names id name c)) (fun {s p b} _ ⟨depth, before⟩ => ?_) known
    ⟨Scopes.depth_push globalScope, (Scopes.names_push globalScope).1⟩).2 named
  have outer : id ≠ s.current := by
    refine Nat.ne_of_lt (Nat.lt_of_lt_of_eq live ?_)
    exact (congrArg (· - 1) depth).symm
  refine ⟨(Scopes.depth_receive p b).trans depth, fun named => before ?_⟩
  unfold Scopes.receive at named
  split at named
  · rename_i accepted
    cases b with
    | shared cell => exact ((Scopes.names_link accepted).1 named).resolve_right fun new => outer new.1
    | copied v => exact ((Scopes.names_declare accepted _).1 named).resolve_right fun new => outer new.1
  · exact named

theorem Fresh.change {V : Value → Prop} (change : Change V mem mem') : mem.Fresh mem' := by
  intro id name c _ named
  cases change with
  | store | storeElement | put | occupy | vacate | bind => exact .inl named
  | declare accepted =>
    rcases (Scopes.names_declare accepted _).1 named with old | ⟨-, -, rfl⟩
    · exact .inl old
    · exact .inr (Nat.le_refl _)

namespace Lifetimes

variable (h : mem.Lifetimes)

include h

/-- When a call has been left, the caller's scopes have got no names but for new variables. -/
theorem fresh_leave {ps : List Param} {bs : List Binding} (known : lifetime.bindings mem ps bs)
    (later : naming.Later (mem.enter ps bs) mem') : mem.Fresh mem'.leave := by
  obtain ⟨-, opened, depth⟩ := h.enter known
  obtain ⟨inner, -⟩ := h.later_leave known later.1
  intro id name c live named
  obtain ⟨-, before⟩ := (names_leave inner).1 named
  have live' : id < (mem.enter ps bs).scopes.depth := depth ▸ Nat.lt_succ_of_lt live
  rcases later.2 live' before with old | new
  · exact .inl (names_of_enter known live old)
  · exact .inr (Nat.le_trans opened.size_le new)

/-- A name that was found stands for the same variable later on, if the innermost scope has not got the name
meanwhile; otherwise it stands for a new one. -/
theorem lookup_later (h' : mem'.Lifetimes) (later : naming.Later mem mem') {name : String} {c : CellId}
    (found : mem.scopes.lookup? mem.scopes.current name = some c) :
    ∃ c', mem'.scopes.lookup? mem'.scopes.current name = some c' ∧
      (c' = c ↔ (mem'.scopes.Owns name → mem.scopes.Owns name)) := by
  have same : mem'.scopes.current = mem.scopes.current := congrArg (· - 1) later.1.2
  by_cases own : mem.scopes.Owns name
  · obtain ⟨d, named⟩ := own
    obtain rfl : d = c := Option.some.inj (named.lookup?.symm.trans found)
    have named' : mem'.scopes.Names mem'.scopes.current name d := same ▸ later.1.1.names named
    exact ⟨d, named'.lookup?, iff_of_true rfl fun _ => ⟨d, named⟩⟩
  · have global : mem.scopes.Names globalScope name c :=
      (Scopes.names_of_lookup? h.flat found).resolve_left fun named => own ⟨c, named⟩
    by_cases own' : mem'.scopes.Owns name
    · obtain ⟨d, named⟩ := own'
      refine ⟨d, named.lookup?, iff_of_false (fun (again : d = c) => ?_) fun still => own (still ⟨d, named⟩)⟩
      have live : mem.scopes.current < mem.scopes.depth := Nat.sub_one_lt (Nat.ne_of_gt h.global)
      rcases later.2 live (same ▸ named) with before | new
      · exact own ⟨d, before⟩
      · obtain ⟨v, -, there, -, -⟩ := h.named global
        have old : c < mem.scopes.cells.size := (Array.getElem?_eq_some_iff.1 there).1
        exact Nat.not_lt_of_le new (again ▸ old)
    · refine ⟨c, Scopes.lookup?_of_global h'.flat (later.1.1.names global) own', iff_of_true rfl fun got => ?_⟩
      exact absurd got own'

end Lifetimes

/-- Every step of a run gives names to new variables only. -/
theorem Lifetimes.keepNames : MemoryKept naming Lifetimes where
  mirrors h := h.mirrors
  values _ := .true
  held _ _ _ := trivial
  item _ _ := trivial
  slot _ _ := trivial
  sees h visible := h.rooted_of_sees visible
  change h change := ⟨(h.change change).1, (h.change change).2, Fresh.change change⟩
  enter known h := (h.enter (naming_bindings known)).1
  leave known h later there := by
    have known := naming_bindings known
    obtain ⟨inner, back⟩ := h.later_leave known later.1
    exact ⟨there.leave inner, ⟨back, h.fresh_leave known later⟩, fun _ _ => trivial⟩

end Memory

end Pseudocode
