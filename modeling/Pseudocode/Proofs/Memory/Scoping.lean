import Mathlib.Data.List.Basic
import Pseudocode.Proofs.Semantics.Congruence

/-!
Scopes and names. A name stands for a cell in a scope (`Names`), and stays so until the scope is closed.
A call opens a scope for its parameters and closes it at the end; what it does to the scopes in between
never renames a cell.
-/

namespace Pseudocode

namespace Scope

variable {scope : Scope} {name n : String} {c x : CellId}

@[simp] theorem get?_empty (parent : Option ScopeId) : (empty parent).get? name = none := rfl

@[simp] theorem names_empty (parent : Option ScopeId) : (empty parent).names = [] := rfl

theorem mem_order_iff : name ∈ scope.order ↔ ∃ c, scope.get? name = some c :=
  (scope.listed name).trans Option.isSome_iff_exists

/-- The names that are listed are those that are found. -/
@[simp] theorem mem_names : (name, c) ∈ scope.names ↔ scope.get? name = some c := by
  have found (own : scope.get? name = some c) : name ∈ scope.order := mem_order_iff.2 ⟨c, own⟩
  simp only [names, List.mem_filterMap, Option.map_eq_some_iff, Prod.mk.injEq]
  exact ⟨fun ⟨_, _, _, own, same, here⟩ => same ▸ here ▸ own, fun own => ⟨name, found own, c, own, rfl, rfl⟩⟩

theorem lookup_names : scope.names.lookup name = scope.get? name := by
  cases own : scope.get? name with
  | none =>
    refine List.lookup_eq_none_iff.2 fun entry mem => ?_
    have there : scope.get? entry.1 = some entry.2 := mem_names.1 mem
    simpa using fun same : name = entry.1 => by simp_all
  | some c =>
    obtain ⟨d, first⟩ := Option.isSome_iff_exists.1
      (List.lookup_isSome_iff.2 ⟨(name, c), mem_names.2 own, beq_self_eq_true name⟩)
    obtain ⟨before, behind, split, -⟩ := List.lookup_eq_some_iff.1 first
    have there : scope.get? name = some d := mem_names.1 (split ▸ by simp)
    rw [first, ← there, own]

theorem get?_bind : (scope.bind name c).get? n = if n = name then some c else scope.get? n := by
  by_cases same : n = name
  · simp [bind, get?, same]
  · simp [bind, get?, List.lookup_cons, same, beq_false_of_ne same]

/-- A new name is listed behind the others. -/
theorem names_bind (free : scope.get? name = none) : (scope.bind name c).names = scope.names ++ [(name, c)] := by
  have old : ∀ n ∈ scope.order, n ≠ name := by
    rintro n mem rfl
    obtain ⟨d, own⟩ := mem_order_iff.1 mem
    rw [free] at own
    cases own
  rw [names, show (scope.bind name c).order = scope.order ++ [name] from rfl, List.filterMap_append]
  congr 1
  · exact List.filterMap_congr fun n mem => by rw [get?_bind, if_neg (old n mem)]
  · simp [get?_bind]

end Scope

namespace Scopes

/-- A name of a live scope stands for a cell. -/
def Names (s : Scopes) (id : ScopeId) (name : String) (c : CellId) : Prop :=
  ∃ scope, s.scope? id = some scope ∧ scope.get? name = some c

variable {s : Scopes} {id j : ScopeId} {name n : String} {c x : CellId}

/-- A live scope has a name for a cell. -/
def Lists (s : Scopes) (id : ScopeId) (c : CellId) : Prop :=
  ∃ scope, s.scope? id = some scope ∧ ∃ name, (name, c) ∈ scope.names

theorem Names.lists (h : s.Names id name c) : s.Lists id c := by
  obtain ⟨scope, live, own⟩ := h
  exact ⟨scope, live, name, Scope.mem_names.2 own⟩

theorem Lists.lt_depth (h : s.Lists id c) : id < s.depth := by
  obtain ⟨scope, live, -⟩ := h
  exact (Array.getElem?_eq_some_iff.1 live).1

theorem Names.lt_depth (h : s.Names id name c) : id < s.depth := h.lists.lt_depth

/-- Every scope but the global one has the global one as its parent. -/
def Flat (s : Scopes) : Prop :=
  ∀ (id : ScopeId) (scope : Scope), s.scope? id = some scope →
    scope.parent = if id = globalScope then none else some globalScope

/-- A name is found in the scope where the search begins or among the global names. -/
theorem names_of_lookupFrom (flat : s.Flat) {fuel : Nat} (found : s.lookupFrom name fuel id = some c) :
    s.Names id name c ∨ s.Names globalScope name c := by
  induction fuel generalizing id with
  | zero => cases found
  | succ fuel ih =>
    unfold lookupFrom at found
    cases live : s.scope? id with
    | none => simp [live] at found
    | some scope =>
      rw [live] at found
      dsimp only at found
      cases own : scope.get? name with
      | some cell =>
        rw [own] at found
        cases found
        exact .inl ⟨scope, live, own⟩
      | none =>
        rw [own, flat id scope live] at found
        by_cases top : id = globalScope
        · simp [top] at found
        · rw [if_neg top] at found
          exact .inr ((ih found).elim (·) (·))

theorem names_of_lookup? (flat : s.Flat) (found : s.lookup? id name = some c) :
    s.Names id name c ∨ s.Names globalScope name c :=
  names_of_lookupFrom flat found

/-- Only names of the scope where the search begins, and global names, are visible. -/
theorem lists_of_visibleFrom (flat : s.Flat) {hidden : List String} {fuel : Nat} {entry : String × CellId}
    (member : entry ∈ s.visibleFrom hidden fuel id) : s.Lists id entry.2 ∨ s.Lists globalScope entry.2 := by
  induction fuel generalizing hidden id with
  | zero => cases member
  | succ fuel ih =>
    unfold visibleFrom at member
    cases live : s.scope? id with
    | none => simp [live] at member
    | some scope =>
      rw [live] at member
      dsimp only at member
      have own (listed : entry ∈ scope.names.filter fun entry => !hidden.contains entry.1) :
          s.Lists id entry.2 :=
        ⟨scope, live, entry.1, (List.mem_filter.1 listed).1⟩
      rw [flat id scope live] at member
      by_cases top : id = globalScope
      · rw [if_pos top] at member
        exact .inl (own member)
      · rw [if_neg top] at member
        rcases List.mem_append.1 member with listed | global
        · exact .inl (own listed)
        · exact .inr ((ih global).elim (·) (·))

/-- A scope's own names are found first. -/
theorem Names.lookup? (h : s.Names id name c) : s.lookup? id name = some c := by
  have positive := h.lt_depth
  obtain ⟨scope, live, own⟩ := h
  obtain ⟨fuel, depth⟩ := Nat.exists_eq_succ_of_ne_zero
    (Nat.ne_of_gt (Nat.lt_of_le_of_lt (Nat.zero_le id) positive))
  rw [Scopes.lookup?, depth, lookupFrom, live]
  simp [own]

section Changes

theorem cells_addCell {v w : Variable} (there : s.cells[c]? = some w) : (s.addCell v).cells[c]? = some w := by
  obtain ⟨inside, -⟩ := Array.getElem?_eq_some_iff.1 there
  exact (Array.getElem?_push.trans (if_neg (Nat.ne_of_lt inside))).trans there

variable {f : Variable → Variable}

theorem cells_update_of_ne (other : x ≠ c) : (s.update x f).cells[c]? = s.cells[c]? :=
  Array.getElem?_modify.trans (if_neg other)

/-- A property of a variable that one change of it keeps. -/
theorem cells_update {v : Variable} {P : Variable → Prop} (there : s.cells[c]? = some v) (same : P v)
    (changed : x = c → P (f v)) : ∃ w, (s.update x f).cells[c]? = some w ∧ P w := by
  by_cases here : x = c
  · subst here
    exact ⟨f v, by simp [update, Array.getElem?_modify, there], changed rfl⟩
  · exact ⟨v, (cells_update_of_ne here).trans there, same⟩

@[simp] theorem depth_push (parent : ScopeId) : (s.push parent).depth = s.depth + 1 := by simp [depth, push]

@[simp] theorem depth_link : (s.link id name c).depth = s.depth := by simp [depth, link]

@[simp] theorem depth_declare (v : Variable) : (s.declare id name v).depth = s.depth := depth_link

@[simp] theorem names_update (f : Variable → Variable) : (s.update c f).Names id name x ↔ s.Names id name x :=
  .rfl

theorem scope?_link : (s.link id name c).scope? j =
    if id = j then (s.scope? j).map (·.bind name c) else s.scope? j := by
  simp only [scope?, link, Array.getElem?_modify]

/-- A further name leaves the parents of scopes alone. -/
theorem Flat.link (flat : s.Flat) : (s.link id name c).Flat := by
  intro j scope live
  rw [scope?_link] at live
  split at live
  · obtain ⟨before, there, rfl⟩ := Option.map_eq_some_iff.1 live
    exact flat j before there
  · exact flat j scope live

theorem lists_of_link (listed : (s.link id name c).Lists j x) : s.Lists j x ∨ j = id ∧ x = c := by
  obtain ⟨scope, live, n, member⟩ := listed
  rw [scope?_link] at live
  split at live
  · rename_i same
    obtain ⟨before, there, rfl⟩ := Option.map_eq_some_iff.1 live
    rw [Scope.mem_names, Scope.get?_bind] at member
    split at member
    · exact .inr ⟨same.symm, (Option.some.inj member).symm⟩
    · exact .inl ⟨before, there, n, Scope.mem_names.2 member⟩
  · exact .inl ⟨scope, live, n, member⟩

/-- Linking adds one name to the scope that accepts it. -/
theorem names_link (accepted : s.accepts id name = true) :
    (s.link id name c).Names j n x ↔ s.Names j n x ∨ j = id ∧ n = name ∧ x = c := by
  unfold accepts at accepted
  cases live : s.scope? id with
  | none => simp [live] at accepted
  | some scope =>
    rw [live] at accepted
    have free : scope.get? name = none := by simpa using accepted
    unfold Names
    rw [scope?_link]
    by_cases same : id = j
    · subst same
      by_cases here : n = name
      · subst here
        simp [live, Scope.get?_bind, free, eq_comm]
      · simp [live, Scope.get?_bind, here]
    · simp [same, Ne.symm same]

theorem names_declare (accepted : s.accepts id name = true) (v : Variable) :
    (s.declare id name v).Names j n x ↔ s.Names j n x ∨ j = id ∧ n = name ∧ x = s.cells.size :=
  names_link (s := s.addCell v) accepted

/-- A scope that was just opened has no names. -/
theorem names_push (parent : ScopeId) : (s.push parent).Names j n x ↔ s.Names j n x := by
  unfold Names scope? push
  rw [Array.getElem?_push]
  by_cases top : j = s.stack.size
  · simp [top]
  · simp [top]

theorem lists_of_push {parent : ScopeId} (listed : (s.push parent).Lists j x) : s.Lists j x := by
  obtain ⟨scope, live, n, member⟩ := listed
  unfold scope? push at live
  rw [Array.getElem?_push] at live
  split at live
  · cases live
    cases member
  · exact ⟨scope, live, n, member⟩

/-- The scope of a call has the global one as its parent. -/
theorem Flat.push (flat : s.Flat) (global : 0 < s.depth) : (s.push globalScope).Flat := by
  intro j scope live
  unfold scope? Scopes.push at live
  rw [Array.getElem?_push] at live
  split at live
  · rename_i top
    cases live
    have inner : j ≠ globalScope := top ▸ Nat.ne_of_gt global
    rw [if_neg inner]
    rfl
  · exact flat j scope live

/-- Closing a scope leaves those further out alone. -/
theorem scope?_of_pop {scope : Scope} (live : s.pop.scope? j = some scope) : s.scope? j = some scope := by
  unfold scope? pop at *
  split at live
  · simp only [Array.getElem?_pop] at live
    split at live
    · exact live
    · cases live
  · exact live

theorem Flat.pop (flat : s.Flat) : s.pop.Flat := fun id scope live => flat id scope (scope?_of_pop live)

theorem lists_of_pop (listed : s.pop.Lists j x) : s.Lists j x := by
  obtain ⟨scope, live, member⟩ := listed
  exact ⟨scope, scope?_of_pop live, member⟩

/-- Closing the innermost scope drops its names. -/
theorem names_pop (inner : 1 < s.depth) : s.pop.Names j n x ↔ j < s.current ∧ s.Names j n x := by
  unfold Names scope? pop
  rw [if_pos (show 1 < s.stack.size from inner)]
  simp only [Array.getElem?_pop]
  by_cases low : j < s.stack.size - 1
  · simp [low, current]
  · simp [low, current]

theorem innermost?_of_inner (inner : 1 < s.depth) : s.innermost? = s.scope? s.current := by
  unfold innermost?
  rw [if_pos (show 1 < s.stack.size from inner), Array.back?_eq_getElem?]
  rfl

theorem scope?_of_innermost? {scope : Scope} (live : s.innermost? = some scope) :
    s.scope? s.current = some scope := by
  by_cases inner : 1 < s.depth
  · rwa [← innermost?_of_inner inner]
  · rw [innermost?, if_neg (show ¬ 1 < s.stack.size from inner)] at live
    cases live

theorem depth_pop (inner : 1 < s.depth) : s.pop.depth = s.current := by
  unfold pop
  rw [if_pos (show 1 < s.stack.size from inner)]
  simp [depth, current]

@[simp] theorem cells_pop : s.pop.cells = s.cells := by
  unfold pop
  split <;> rfl

end Changes

/-- Gives a parameter its cell in the innermost scope, unless the scope has the name already. -/
def receive (s : Scopes) (p : Param) (b : Binding) : Scopes :=
  if s.accepts s.current p.name then
    match b with
    | .shared cell => s.link s.current p.name cell
    | .copied v => s.declare s.current p.name (.declared p.type (some v) s.current)
  else s

def receiveAll : Scopes → List Param → List Binding → Scopes
  | s, p :: ps, b :: bs => (s.receive p b).receiveAll ps bs
  | s, _, _ => s

/-- Opens the scope of a call. -/
def enter (s : Scopes) (ps : List Param) (bs : List Binding) : Scopes := (s.push globalScope).receiveAll ps bs

variable {ps : List Param} {bs : List Binding}

/-- What every parameter preserves all of them preserve. -/
theorem receiveAll_of {W : Type} {κ : Knowledge W} {w : W} {P : Scopes → Prop}
    (step : ∀ {s p b}, κ.binding w p b → P s → P (s.receive p b)) (known : κ.bindings w ps bs) (h : P s) :
    P (s.receiveAll ps bs) := by
  induction ps generalizing s bs with
  | nil => exact h
  | cons p ps ih =>
    cases bs with
    | nil => exact h
    | cons b bs => exact ih known.2 (step known.1 h)

theorem accepts_iff : s.accepts id name = true ↔ id < s.depth ∧ ∀ c, ¬ s.Names id name c := by
  unfold accepts Names
  cases live : s.scope? id with
  | none => simp [depth, Array.getElem?_eq_none_iff.1 live]
  | some scope =>
    have inside : id < s.depth := (Array.getElem?_eq_some_iff.1 live).1
    simp [inside, Option.eq_none_iff_forall_ne_some]

theorem depth_receive (p : Param) (b : Binding) : (s.receive p b).depth = s.depth := by
  unfold receive
  split
  · cases b <;> simp
  · rfl

/-- A parameter hides nothing that a scope names. -/
theorem Names.receive (h : s.Names j n x) (p : Param) (b : Binding) : (s.receive p b).Names j n x := by
  unfold Scopes.receive
  split
  · rename_i accepted
    cases b with
    | shared cell => exact (names_link accepted).2 (.inl h)
    | copied v => exact (names_declare accepted _).2 (.inl h)
  · exact h

theorem Names.of_receive {p : Param} {b : Binding} (h : (s.receive p b).Names j n x) :
    s.Names j n x ∨ n = p.name := by
  unfold Scopes.receive at h
  split at h
  · rename_i accepted
    cases b with
    | shared cell => exact ((names_link accepted).1 h).imp_right (·.2.1)
    | copied v => exact ((names_declare accepted _).1 h).imp_right (·.2.1)
  · exact .inl h

theorem getElem?_receive {v : Variable} (there : s.cells[c]? = some v) (p : Param) (b : Binding) :
    (s.receive p b).cells[c]? = some v := by
  unfold receive
  split
  · cases b with
    | shared cell => exact there
    | copied v => exact cells_addCell there
  · exact there

/-- What is named and held stays so when parameters are received. -/
theorem receiveAll_keeps {v : Variable} (named : s.Names j n c) (there : s.cells[c]? = some v)
    (ps : List Param) (bs : List Binding) :
    (s.receiveAll ps bs).Names j n c ∧ (s.receiveAll ps bs).cells[c]? = some v := by
  induction ps generalizing s bs with
  | nil => exact ⟨named, there⟩
  | cons p ps ih =>
    cases bs with
    | nil => exact ⟨named, there⟩
    | cons b bs => exact ih (named.receive p b) (getElem?_receive there p b) bs

theorem size_le_receive (p : Param) (b : Binding) : s.cells.size ≤ (s.receive p b).cells.size := by
  unfold receive
  split
  · cases b with
    | shared cell => exact Nat.le_refl _
    | copied v => exact Nat.le_of_lt (Nat.lt_of_lt_of_eq (Nat.lt_succ_self _) (Array.size_push _).symm)
  · exact Nat.le_refl _

/-- A parameter that is passed by value stands for a new cell, which holds the value, if no two parameters
have one name. -/
theorem receiveAll_copied {q : Param} {v : Value} (free : ∀ p ∈ ps, s.accepts s.current p.name = true)
    (distinct : (ps.map (·.name)).Nodup) (passed : (q, .copied v) ∈ ps.zip bs) :
    ∃ c, s.cells.size ≤ c ∧ (s.receiveAll ps bs).Names s.current q.name c ∧
      (s.receiveAll ps bs).cells[c]? = some (.declared q.type (some v) s.current) := by
  induction ps generalizing s bs with
  | nil => simp at passed
  | cons p ps ih =>
    cases bs with
    | nil => simp at passed
    | cons b bs =>
      have accepted := free p List.mem_cons_self
      rcases List.mem_cons.1 passed with here | later
      · cases here
        have received : s.receive q (.copied v) =
            s.declare s.current q.name (.declared q.type (some v) s.current) := by
          rw [receive, if_pos accepted]
        refine ⟨s.cells.size, Nat.le_refl _, receiveAll_keeps ?_ ?_ ps bs⟩
        · exact received ▸ (names_declare accepted _).2 (.inr ⟨rfl, rfl, rfl⟩)
        · rw [received]
          exact Array.getElem?_push_size
      · -- The names still to come are free after the first has been received, as they differ from it.
        obtain ⟨other, rest⟩ := List.nodup_cons.1 distinct
        have same : (s.receive p b).current = s.current := congrArg (· - 1) (depth_receive p b)
        have still (p' : Param) (member : p' ∈ ps) :
            (s.receive p b).accepts (s.receive p b).current p'.name = true := by
          obtain ⟨live, unnamed⟩ := accepts_iff.1 (free p' (List.mem_cons_of_mem p member))
          refine accepts_iff.2 ⟨same.symm ▸ Nat.lt_of_lt_of_eq live (depth_receive p b).symm,
            fun c named => ?_⟩
          rw [same] at named
          rcases named.of_receive with before | taken
          · exact unnamed c before
          · exact other (List.mem_map.2 ⟨p', member, taken⟩)
        obtain ⟨c, new, named, held⟩ := ih still rest later
        rw [same] at named held
        exact ⟨c, Nat.le_trans (size_le_receive p b) new, named, held⟩

theorem depth_receiveAll (ps : List Param) (bs : List Binding) : (s.receiveAll ps bs).depth = s.depth := by
  induction ps generalizing s bs with
  | nil => rfl
  | cons p ps ih =>
    cases bs with
    | nil => rfl
    | cons b bs => exact (ih bs).trans (depth_receive p b)

/-- So it does when a call is entered. -/
theorem enter_copied {q : Param} {v : Value} (distinct : (ps.map (·.name)).Nodup)
    (passed : (q, .copied v) ∈ ps.zip bs) :
    ∃ c, s.cells.size ≤ c ∧ (s.enter ps bs).Names (s.enter ps bs).current q.name c ∧
      (s.enter ps bs).cells[c]? = some (.declared q.type (some v) (s.enter ps bs).current) := by
  have top : (s.push globalScope).current = s.depth := congrArg (· - 1) (depth_push globalScope)
  have free (p : Param) : (s.push globalScope).accepts (s.push globalScope).current p.name = true := by
    refine accepts_iff.2 ⟨?_, fun c named => ?_⟩
    · rw [top, depth_push]
      exact Nat.lt_succ_self _
    · rw [top, names_push] at named
      exact Nat.lt_irrefl _ named.lt_depth
  have same : (s.enter ps bs).current = (s.push globalScope).current :=
    congrArg (· - 1) (depth_receiveAll ps bs)
  rw [same]
  exact receiveAll_copied (fun p _ => free p) distinct passed

end Scopes

end Pseudocode
