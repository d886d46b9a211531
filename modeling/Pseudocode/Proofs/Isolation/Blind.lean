import Pseudocode.Proofs.Isolation.Invariant

/-!
Steps that do not see the values of some cells. From two states that differ in nothing but these values
such a step leads to results that differ in nothing else (`Blind`). No step of a body sees the values of
cells that are isolated from it.
-/

namespace Pseudocode

variable {σ : Type} {α β : Type}

/-- A variable with another value, if one is given. -/
def Variable.withValue (v : Variable) : Option (Option Value) → Variable
  | some value => { v with value }
  | none => v

/-- The values of some cells are replaced. -/
def Scopes.withValues (s : Scopes) (values : CellId → Option (Option Value)) : Scopes :=
  { s with cells := s.cells.mapIdx fun c v => v.withValue (values c) }

/-- The values of some cells are replaced. -/
def Machine.withValues (m : Machine σ) (values : CellId → Option (Option Value)) : Machine σ :=
  { m with scopes := m.scopes.withValues values }

namespace Scopes

variable {s : Scopes} {values : CellId → Option (Option Value)} {c : CellId}

theorem cell?_withValues : (s.withValues values).cell? c = (s.cell? c).map (·.withValue (values c)) :=
  Array.getElem?_mapIdx

/-- Other cells are as they were. -/
theorem cell?_withValues_of_none (other : values c = none) : (s.withValues values).cell? c = s.cell? c := by
  rw [cell?_withValues, other]
  exact Option.map_id'

theorem size_withValues : (s.withValues values).cells.size = s.cells.size := Array.size_mapIdx

theorem ext_cell? {s s' : Scopes} (stack : s.stack = s'.stack) (cells : ∀ c, s.cell? c = s'.cell? c) :
    s = s' := by
  obtain ⟨cells₁, stack₁⟩ := s
  obtain ⟨cells₂, stack₂⟩ := s'
  cases stack
  exact congrArg (Scopes.mk · stack₁) (Array.ext_getElem? cells)

theorem update_withValues (other : values c = none) (f : Variable → Variable) :
    (s.withValues values).update c f = (s.update c f).withValues values := by
  refine ext_cell? rfl fun d => ?_
  rw [cell?_withValues]
  show ((s.withValues values).cells.modify c f)[d]? = (s.cells.modify c f)[d]?.map _
  rw [Array.getElem?_modify, Array.getElem?_modify]
  have same : (s.withValues values).cells[d]? = _ := cell?_withValues (c := d)
  rw [same]
  by_cases here : c = d
  · subst here
    rw [other]
    simp [Scopes.cell?, Variable.withValue, Function.comp_def]
  · simp [here, Scopes.cell?]

theorem addCell_withValues (other : values s.cells.size = none) (v : Variable) :
    (s.withValues values).addCell v = (s.addCell v).withValues values := by
  refine ext_cell? rfl fun d => ?_
  rw [cell?_withValues]
  show ((s.withValues values).cells.push v)[d]? = (s.cells.push v)[d]?.map _
  rw [Array.getElem?_push, Array.getElem?_push, size_withValues]
  have same : (s.withValues values).cells[d]? = _ := cell?_withValues (c := d)
  rw [same]
  by_cases here : d = s.cells.size
  · subst here
    rw [other]
    simp [Variable.withValue]
  · simp [here, Scopes.cell?]

theorem declare_withValues (other : values s.cells.size = none) (id : ScopeId) (name : String)
    (v : Variable) :
    (s.withValues values).declare id name v = (s.declare id name v).withValues values := by
  unfold declare
  rw [addCell_withValues other, size_withValues]
  rfl

theorem pop_withValues : (s.withValues values).pop = s.pop.withValues values := by
  unfold pop
  by_cases inner : 1 < s.stack.size
  · rw [if_pos inner, if_pos (show 1 < (s.withValues values).stack.size from inner)]
    rfl
  · rw [if_neg inner, if_neg (show ¬ 1 < (s.withValues values).stack.size from inner)]

theorem lookupFrom_withValues (name : String) (fuel : Nat) (id : ScopeId) :
    (s.withValues values).lookupFrom name fuel id = s.lookupFrom name fuel id := by
  induction fuel generalizing id with
  | zero => rfl
  | succ fuel ih =>
    simp only [lookupFrom, ih]
    rfl

theorem visibleFrom_withValues (hidden : List String) (fuel : Nat) (id : ScopeId) :
    (s.withValues values).visibleFrom hidden fuel id = s.visibleFrom hidden fuel id := by
  induction fuel generalizing hidden id with
  | zero => rfl
  | succ fuel ih =>
    simp only [visibleFrom, ih]
    rfl

end Scopes

namespace Exec

/-- Begun in a state in which the values of some cells are replaced, a step ends as it would otherwise, in
a state in which they are replaced. -/
def Blind (values : CellId → Option (Option Value)) (m : Machine σ) (x : Exec σ α) : Prop :=
  x (m.withValues values) = mapState (·.withValues values) (x m)

namespace Blind

variable {values : CellId → Option (Option Value)} {m : Machine σ} {line : Nat} {x : Exec σ α}

theorem bind {f : α → Exec σ β} (first : Blind values m x) (next : ∀ a m', x m = .ok a m' → Blind values m' (f a)) :
    Blind values m (x >>= f) := by
  unfold Blind at *
  cases run : x m with
  | ok a m' =>
    rw [run] at first
    rw [bind_of_ok first, bind_of_ok run]
    exact next a m' run
  | error e m' =>
    rw [run] at first
    rw [bind_of_error first, bind_of_error run]
    rfl

theorem look {f : Machine σ → Exec σ β} (same : f (m.withValues values) = f m) (next : Blind values m (f m)) :
    Blind values m (get >>= f) := by
  show f (m.withValues values) (m.withValues values) = _
  rw [same]
  exact next

theorem change {f : Machine σ → Machine σ} (same : f (m.withValues values) = (f m).withValues values) :
    Blind values m (modify f) :=
  congrArg (EStateM.Result.ok ()) same

theorem modifyScopes {f : Scopes → Scopes}
    (same : f (m.scopes.withValues values) = (f m.scopes).withValues values) :
    Blind values m (modifyScopes f) :=
  change (congrArg (fun s => { m with scopes := s }) same)

theorem discard (step : Blind values m x) : Blind values m (discard x) :=
  step.bind fun _ _ _ => rfl

theorem ofExcept_bind {x : Except Cause α} {f : α → Exec σ β} (next : ∀ a, x = .ok a → Blind values m (f a)) :
    Blind values m (ofExcept line x >>= f) := by
  cases x with
  | ok a => exact next a rfl
  | error cause => rfl

theorem attempt (step : Blind values m x) : Blind values m (attempt x) := by
  unfold Blind Exec.attempt at *
  rw [step]
  cases x m <;> rfl

theorem recordStore (name : String) (type : DataType) (value : Value) (address : Option Nat)
    (old : Option Value) : Blind values m (recordStore name type value address old line) := by
  unfold Exec.recordStore
  dsimp only
  split <;> rfl

section Arena

theorem allocate (size : Nat) (tag : String) : Blind values m (allocate size tag line) := by
  refine look rfl ?_
  cases m.arena.place size <;> rfl

theorem release (address : Nat) : Blind values m (release address line) := by
  refine look rfl ?_
  cases m.arena.freeable address <;> rfl

theorem writeArena (address : Nat) (value : Value) : Blind values m (writeArena address value line) := by
  refine look rfl ?_
  cases m.arena.access address <;> rfl

theorem readThrough (address : Nat) : Blind values m (readThrough address line) := by
  refine look rfl ?_
  cases m.arena.read address <;> rfl

theorem allocateBlock (size : Float) (tag : Option DataType) :
    Blind values m (allocateBlock size tag line) := by
  simp only [Exec.allocateBlock]
  split
  · rfl
  · refine look rfl ?_
    split
    · rfl
    · exact (allocate _ _).bind fun _ _ _ => rfl

theorem freeBlock (v : Value) : Blind values m (freeBlock v line) := by
  cases v with
  | address a =>
    refine look rfl ?_
    split
    · rfl
    · exact (release a).bind fun _ _ _ => rfl
  | _ => rfl

end Arena

section Variables

variable {U : CellId → Prop} {base : ScopeId} (covered : ∀ c, ¬ U c → values c = none)

include covered

variable {w : Memory} {cell : CellId}

theorem cell?_withValues (seen : ¬ U cell) : (m.withValues values).scopes.cell? cell = m.scopes.cell? cell :=
  Scopes.cell?_withValues_of_none (covered cell seen)

theorem counterValue (seen : ¬ U cell) (name : String) : Blind values m (counterValue cell name line) := by
  refine look (by rw [cell?_withValues covered seen]) ?_
  rcases (m.scopes.cell? cell).bind (·.value) with _ | (_ | _ | _ | _ | _) <;> rfl

theorem update (seen : ¬ U cell) (f : Variable → Variable) : Blind values m (Exec.modifyScopes (·.update cell f)) :=
  modifyScopes (Scopes.update_withValues (covered cell seen) f)

theorem bindAddress (seen : ¬ U cell) (name : String) (v : Variable) :
    Blind values m (bindAddress name cell v line) := by
  have binds (m : Machine σ) (address : Nat) : Blind values m (modify fun m =>
      { m with
        scopes := m.scopes.update cell fun v => { v with address := some address }
        bound := (address, cell) :: m.bound }) :=
    change (congrArg (fun s => { m with scopes := s, bound := (address, cell) :: m.bound })
      (Scopes.update_withValues (covered cell seen) _))
  simp only [Exec.bindAddress]
  split
  · rfl
  · refine (allocate _ _).bind fun address m' _ => ?_
    split
    · exact (writeArena _ _).discard.bind fun _ m'' _ => (binds m'' address).bind fun _ _ _ => rfl
    · exact (binds m' address).bind fun _ _ _ => rfl

theorem endVariable (seen : ¬ U cell) (id : ScopeId) (name : String) :
    Blind values m (endVariable id name cell line) := by
  refine look (by rw [cell?_withValues covered seen]) ?_
  split
  · rfl
  · split
    · refine (update covered seen _).bind fun _ m' _ => ?_
      split
      · refine (change rfl).bind fun _ m' _ => ?_
        exact (release _).discard.bind fun _ _ _ => rfl
      · rfl
    · rfl

theorem endVariables {names : List (String × CellId)} (seen : ∀ entry ∈ names, ¬ U entry.2) (id : ScopeId) :
    Blind values m (endVariables id line names) := by
  induction names generalizing m with
  | nil => rfl
  | cons entry rest ih =>
    refine (endVariable covered (seen entry List.mem_cons_self) id entry.1).bind fun _ m' _ => ?_
    exact ih fun other later => seen other (List.mem_cons_of_mem _ later)

-- From here on a step begins in a state that is isolated from some cells.
variable (iso : m.memory.Isolated U base)

include iso

theorem find?_withValues (name : String) : (m.withValues values).find? name = m.find? name := by
  have looked : (m.withValues values).scopes.lookup? (m.withValues values).scopes.current name =
      m.scopes.lookup? m.scopes.current name := Scopes.lookupFrom_withValues ..
  unfold Machine.find?
  rw [looked]
  cases found : m.scopes.lookup? m.scopes.current name with
  | none => rfl
  | some cell =>
    simp only [Option.bind_eq_bind, Option.bind_some, cell?_withValues covered (iso.unhidden_of_names found)]

theorem find (name : String) : Blind values m (find name line) := by
  refine look (by rw [find?_withValues covered iso]) ?_
  cases m.find? name <;> rfl

/-- A step that begins with the look-up of a name goes on in the same state with a cell that it may see. -/
theorem find_bind {name : String} {f : CellId × Variable → Exec σ β}
    (next : ∀ c v, ¬ U c → Blind values m (f (c, v))) : Blind values m (Exec.find name line >>= f) := by
  refine (find covered iso name).bind fun ⟨c, v⟩ m' run => ?_
  rw [find_eq] at run
  cases found : m.find? name with
  | none =>
    rw [found] at run
    cases run
  | some entry =>
    rw [found] at run
    cases run
    exact next c v (iso.unhidden_of_names (Machine.find?_eq_some.1 found).1)

theorem readVariable (name : String) : Blind values m (readVariable name line) := by
  refine find_bind covered iso fun c v _ => ?_
  dsimp only
  cases v.value <;> rfl

theorem readElement (name : String) (indices : List Int) : Blind values m (readElement name indices line) :=
  find_bind covered iso fun _ _ _ => ofExcept_bind fun _ _ => rfl

theorem addressOf (name : String) : Blind values m (addressOf name line) := by
  refine find_bind covered iso fun c v seen => ?_
  dsimp only
  cases v.address with
  | some a => rfl
  | none => exact (bindAddress covered seen name v).bind fun _ _ _ => rfl

theorem declareVariable (name : String) (v : ScopeId → Variable) :
    Blind values m (declareVariable name v line) := by
  refine look rfl (look rfl ?_)
  split
  · exact modifyScopes (Scopes.declare_withValues (covered _ iso.new) _ _ _)
  · rfl

theorem declare (name : String) (type : DataType) : Blind values m (declare name type line) :=
  ofExcept_bind fun _ _ => (declareVariable covered iso name _).bind fun _ _ _ => rfl

theorem declareConstant (name : String) (value : Value) :
    Blind values m (declareConstant name value line) := by
  unfold Exec.declareConstant
  split
  · rfl
  · exact (declareVariable covered iso name _).bind fun _ _ _ => rfl

theorem assignVariable (name : String) (value : Value) : Blind values m (assignVariable name value line) := by
  refine find_bind covered iso fun c v seen => ?_
  dsimp only
  split
  · rfl
  · refine ofExcept_bind fun _ _ => (update covered seen _).bind fun _ m' _ => ?_
    split
    · exact (writeArena _ _).discard.bind fun _ _ _ => recordStore _ _ _ _ _
    · exact recordStore _ _ _ _ _

theorem assignElement (name : String) (indices : List Int) (value : Value) :
    Blind values m (assignElement name indices value line) :=
  find_bind covered iso fun _ _ seen => ofExcept_bind fun _ _ =>
    (update covered seen _).bind fun _ _ _ => recordStore _ _ _ _ _

theorem boundVariable?_bind {address : Nat} {f : Option (CellId × Variable) → Exec σ β}
    (next : ∀ found, (∀ c v, found = some (c, v) → ¬ U c) → Blind values m (f found)) :
    Blind values m (boundVariable? address >>= f) := by
  refine bind ?_ fun found m' run => ?_
  · unfold Blind
    rw [boundVariable?_eq, boundVariable?_eq]
    show EStateM.Result.ok ((m.bound.lookup address).bind _) _ = _
    cases key : m.bound.lookup address with
    | none => rfl
    | some cell =>
      rw [Option.bind_some, Option.bind_some, cell?_withValues covered (iso.unhidden_of_bound key)]
      rfl
  · rw [boundVariable?_eq] at run
    cases run
    refine next _ fun c v given => ?_
    obtain ⟨cell, key, held⟩ := Option.bind_eq_some_iff.1 given
    obtain ⟨_, -, same⟩ := Option.map_eq_some_iff.1 held
    cases same
    exact iso.unhidden_of_bound key

theorem assignThrough (address : Nat) (value : Value) :
    Blind values m (assignThrough address value line) := by
  simp only [Exec.assignThrough]
  split
  · rfl
  · refine boundVariable?_bind covered iso fun found unhidden => ?_
    cases found with
    | none => exact (writeArena address value).bind fun _ _ _ => rfl
    | some entry =>
      dsimp only
      split
      · rfl
      · refine ofExcept_bind fun _ _ => (update covered (unhidden entry.1 entry.2 rfl) _).bind fun _ _ _ => ?_
        exact (writeArena address value).bind fun _ _ _ => rfl

theorem counterCell (name : String) : Blind values m (counterCell name line) := by
  have size : (m.withValues values).scopes.cells.size = m.scopes.cells.size := Scopes.size_withValues
  refine look (by rw [find?_withValues covered iso]) ?_
  cases m.find? name with
  | some entry => rfl
  | none =>
    refine look (by rw [size]) ?_
    exact (declareVariable covered iso name _).bind fun _ _ _ => rfl

theorem bindParameter {p : Param} {b : Binding} (given : (Memory.isolation U).binding w p b) (callable : String) :
    Blind values m (bindParameter callable p b line) := by
  have binds {f : Scopes → Scopes} (same : f (m.scopes.withValues values) = (f m.scopes).withValues values)
      (value : Option Value) (id : ScopeId) : Blind values m (do
        if (← get).scopes.accepts id p.name then Exec.modifyScopes f
        Exec.record .declare line
          { subject := some p.name, value := value.map Value.display,
            note := some s!"{p.mode.keyword} parameter of {callable}" }) := by
    refine look rfl ?_
    split
    · exact (modifyScopes same).bind fun _ _ _ => rfl
    · rfl
  refine look rfl ?_
  cases b with
  | shared cell =>
    exact look (by rw [cell?_withValues covered (show ¬ U cell from given)]) (binds rfl _ _)
  | copied v => exact binds (Scopes.declare_withValues (covered _ iso.new) _ _ _) (some v) _

theorem bindParameters {ps : List Param} {bs : List Binding} (known : (Memory.isolation U).bindings w ps bs)
    (callable : String) : Blind values m (bindParameters callable line ps bs) := by
  induction ps generalizing bs m with
  | nil => rfl
  | cons p ps ih =>
    cases bs with
    | nil => rfl
    | cons b bs =>
      refine (bindParameter covered iso known.1 callable).bind fun _ m' run => ?_
      obtain ⟨t, ended⟩ := bindParameter_eq callable p b line m
      cases run.symm.trans ended
      have inside :
          (m.withMemory { m.memory with scopes := m.scopes.receive p b } t).memory.Isolated U base :=
        (iso.receive known.1).1
      exact ih inside known.2

theorem enter {d : Definition Stmt} {bindings : List Binding}
    (known : (Memory.isolation U).bindings w d.params bindings) (kind : CallableKind) :
    Blind values m (enter d kind bindings line) := by
  refine (modifyScopes rfl).bind fun _ m' run => ?_
  cases run
  exact (bindParameters covered iso.push known d.name).bind fun _ _ _ => rfl

theorem leave : Blind values m (leave line) := by
  refine (change rfl).bind fun _ m' run => ?_
  cases run
  refine look rfl ?_
  split
  · rfl
  · rename_i scope innermost
    have live : m.scopes.scope? m.scopes.current = some scope := Scopes.scope?_of_innermost? innermost
    refine (modifyScopes Scopes.pop_withValues).bind fun _ m' _ => look rfl ?_
    exact endVariables covered (fun entry member =>
      iso.unlisted ⟨scope, live, entry.1, member⟩ (.inr iso.base_le_current)) _

theorem closeCall (result : Except RuntimeError Flow) : Blind values m (closeCall line result) := by
  refine look rfl ((leave covered iso).bind fun _ _ _ => ?_)
  cases result <;> rfl

end Variables

end Blind

end Exec

end Pseudocode
