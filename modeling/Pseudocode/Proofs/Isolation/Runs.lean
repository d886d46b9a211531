import Pseudocode.Proofs.Isolation.Blind
import Pseudocode.Proofs.Lifetime.Runs

/-!
Callers are isolated from what they call. The body of a callable can neither change nor see variables of
its callers that it was not passed and that have no address (`isolated_of_callBegins`), and what it does
to a parameter that was passed by value it does to a copy.
-/

namespace Pseudocode

open Exec Machine Memory

variable {σ : Type} {α : Type}

namespace Exec

variable {U : CellId → Prop} {base : ScopeId} {values : CellId → Option (Option Value)} {m : Machine σ}

/-- In states that are isolated from some cells, a step leaves memory alone and does not see the values of
these cells. -/
def BlindControl (U : CellId → Prop) (base : ScopeId) (values : CellId → Option (Option Value)) :
    Property σ :=
  fun _ Q x => ∀ m, m.memory.Isolated U base → Blind values m x ∧ Ends (SameMemory m) Q (x m)

/-- What a debugger is shown does not depend on cells that are isolated. -/
theorem Blind.visible (covered : ∀ c, ¬ U c → values c = none) (iso : m.memory.Isolated U base) :
    (m.withValues values).visible = m.visible := by
  have seen : (m.withValues values).scopes.visible (m.withValues values).scopes.current =
      m.scopes.visible m.scopes.current := Scopes.visibleFrom_withValues ..
  unfold Machine.visible
  rw [seen]
  refine congrArg (List.mergeSort · _) (List.filterMap_congr fun entry member => ?_)
  have unhidden : ¬ U entry.2 := by
    rcases Scopes.lists_of_visibleFrom iso.flat member with own | global
    · exact iso.unlisted own (.inr iso.base_le_current)
    · exact iso.unlisted global (.inl rfl)
  have same : (m.withValues values).scopes.cell? entry.2 = m.scopes.cell? entry.2 :=
    Scopes.cell?_withValues_of_none (covered _ unhidden)
  rw [same]

theorem BlindControl.controlSteps (covered : ∀ c, ¬ U c → values c = none) :
    ControlSteps (BlindControl U base values : Property σ) where
  pure known m _ := ⟨rfl, .refl m, known⟩
  throw _ _ m _ := ⟨rfl, .refl m⟩
  bind {_ _ P Q x f} first next m iso := by
    obtain ⟨blind, ended⟩ := first m iso
    have rest (a : _) (known : P a) (m' : Machine σ) (same : SameMemory m m') :=
      next a known m' (same.memory ▸ iso)
    refine ⟨blind.bind fun a m' run => ?_, ended.bind fun a known m' same => ?_⟩
    · rw [run] at ended
      exact (rest a ended.2 m' ended.1).1
    · exact (rest a known m' same).2.mono (fun _ there => same.trans there) fun _ q => q
  look blind next m iso :=
    ⟨.look (blind m (m.withValues values).memory m.trace m.transcript m.host) (next m m iso).1, (next m m iso).2⟩
  control {_ f} blind same m _ := by
    -- The change gives back the memory and the trace that it was given.
    have fixed : (f m).2.withMemory m.memory m.trace = (f m).2 :=
      congrArg Prod.snd (blind m m.memory m.trace).symm
    have changed : f (m.withValues values) = ((f m).1, (f m).2.withValues values) := calc
      f (m.withValues values) = ((f m).1, ((f m).2.withMemory m.memory m.trace).withValues values) :=
        blind m (m.withValues values).memory m.trace
      _ = ((f m).1, (f m).2.withValues values) := by rw [fixed]
    have stepped (m : Machine σ) : (modifyGet f : Exec σ _) m = .ok (f m).1 (f m).2 := rfl
    refine ⟨?_, same m, trivial⟩
    rw [Blind, stepped, stepped, changed]
    rfl
  showState host m iso := by
    refine ⟨?_, ⟨rfl, rfl, rfl, rfl, rfl⟩, trivial⟩
    have same : (m.withValues values).snapshot true = m.snapshot true := by
      rw [snapshot, Blind.visible covered iso]
      rfl
    have shown : showState host (m.withValues values) =
        .ok (host.step ((m.withValues values).snapshot true) m.host).1
        { m.withValues values with host := (host.step ((m.withValues values).snapshot true) m.host).2 } := rfl
    rw [Blind, shown, same]
    rfl

/-- Begun in a state that is isolated from some cells, a step leaves these cells as they are, and does not
see their values. -/
def Secluded (U : CellId → Prop) (base : ScopeId) (values : CellId → Option (Option Value)) (m : Machine σ)
    (Q : Machine σ → α → Prop) (x : Exec σ α) : Prop :=
  Keeps ((isolation U).comap memory) (·.memory.Isolated U base) m Q x ∧
    (m.memory.Isolated U base → Blind values m x)

namespace Secluded

open Semantics

theorem sequenced :
    Sequenced (σ := σ) (.onLeft (Secluded U base values)) ((isolation U).comap memory) where
  pure known := ⟨Keeps.sequenced.pure known, fun _ => rfl⟩
  throw ordinary := ⟨Keeps.sequenced.throw ordinary, fun _ => rfl⟩
  bind {_ _ m P Q x _ f _} first next := by
    have keeps (m' : Machine σ) (a : _) later known := (next m' a later known).1
    refine ⟨Keeps.sequenced.bind (y := x) (g := f) first.1 keeps, fun iso => ?_⟩
    refine (first.2 iso).bind fun a m' run => ?_
    have ended := first.1 iso
    rw [run] at ended
    exact (next m' a ended.1.2 ended.2).2 ended.1.1

section Runs

variable (covered : ∀ c, ¬ U c → values c = none)

include covered

theorem memoryRelated :
    MemoryRelated (σ := σ) (.onLeft (Secluded U base values)) ((isolation U).comap memory) :=
  have kept : MemoryRelated (fun _ m Q x (_ : Exec σ _) => Keeps ((isolation U).comap memory)
      (·.memory.Isolated U base) m Q x) ((isolation U).comap memory) := Isolated.kept.memoryRelated
  { find name line := ⟨kept.find name line, fun iso => .find covered iso name⟩
    readVariable name line := ⟨kept.readVariable name line, fun iso => .readVariable covered iso name⟩
    readElement name indices line :=
      ⟨kept.readElement name indices line, fun iso => .readElement covered iso name indices⟩
    readThrough address line := ⟨kept.readThrough address line, fun _ => .readThrough address⟩
    counterValue name line seen :=
      ⟨kept.counterValue name line seen, fun _ => .counterValue covered seen name⟩
    addressOf name line := ⟨kept.addressOf name line, fun iso => .addressOf covered iso name⟩
    allocateBlock count tag line := ⟨kept.allocateBlock count tag line, fun _ => .allocateBlock count tag⟩
    freeBlock v line := ⟨kept.freeBlock v line, fun _ => .freeBlock v⟩
    declare name type line := ⟨kept.declare name type line, fun iso => .declare covered iso name type⟩
    declareConstant name v line known :=
      ⟨kept.declareConstant name line known, fun iso => .declareConstant covered iso name v⟩
    assignVariable name v line known :=
      ⟨kept.assignVariable name line known, fun iso => .assignVariable covered iso name v⟩
    assignElement name indices v line known :=
      ⟨kept.assignElement name indices line known, fun iso => .assignElement covered iso name indices v⟩
    assignThrough address v line known :=
      ⟨kept.assignThrough address line known, fun iso => .assignThrough covered iso address v⟩
    counterCell name line := ⟨kept.counterCell name line, fun iso => .counterCell covered iso name⟩ }

theorem steps (ctx : Context σ) :
    Steps (.onLeft (Secluded U base values))
      ((isolation U).comap memory) Eq ctx ctx := by
  have control : ControlSteps (BlindControl U base values : Property σ) := BlindControl.controlSteps covered
  have budget := control.quietSteps.checkBudget (fun _ m _ => ⟨rfl, .refl m⟩) ctx.config
  refine (control.hostSteps budget).steps sequenced (memoryRelated covered) (fun {_ m Q x} step => ?_)
    (fun _ => .true) ctx.config.traceLimit ctx.below
  refine ⟨fun iso => ?_, fun iso => (step m iso).1⟩
  have ended := (step m iso).2.mono (fun _ same => same.memory) fun _ known => known
  exact MemoryKept.unchanged (R := fun _ => Q) ended (fun _ _ known => known) iso

omit covered in
theorem counted (ctx : Context σ) :
    Counted (σ := σ) (.onLeft (Secluded U base values)) ((isolation U).comap memory)
      ctx.config where
  toSequenced := sequenced
  tick line := by
    refine ⟨(Isolated.kept.kept ctx).tick _ line, fun _ => ?_⟩
    refine Blind.bind (.change rfl) fun _ m' _ => .look rfl ?_
    split <;> rfl
  overrun line :=
    ⟨(Isolated.kept.kept ctx).counted.overrun line, fun _ => Blind.bind (.change rfl) fun _ _ _ => rfl⟩
  passesLeft := ⟨(Isolated.kept.kept ctx).counted.passesLeft, fun _ => rfl⟩
  refuse name line := ⟨(Isolated.kept.kept ctx).counted.refuse name line, fun _ => rfl⟩

/-- A call is as blind as its body. -/
theorem calls (ctx : Context σ) :
    Counted.Calls (σ := σ) (.onLeft (Secluded U base values))
      ((isolation U).comap memory) := by
  intro m d kind bindings line body _ known onBody
  refine ⟨(Isolated.kept.kept ctx).call_keeps d kind line known fun m => (onBody m).1, fun iso => ?_⟩
  have known := (isolation U).bindings_comap.1 known
  refine (Blind.enter covered iso known kind).bind fun _ m₁ entered => ?_
  -- The new scope has names only for what was passed, so the body begins isolated from the cells too.
  have iso₁ : m₁.memory.Isolated U base := memory_of_enter entered ▸ (iso.enter known).1
  refine ((onBody m₁).2 iso₁).attempt.bind fun result m₂ ended => ?_
  rw [attempt_eq] at ended
  cases ended
  exact .closeCall covered ((onBody m₁).1 iso₁).final.1 _

/-- Whatever statements are run, they leave such cells alone and do not see them. -/
theorem runBlock (host : Host σ) (config : Config) (definitions : List (Definition Stmt)) (frames : Nat)
    (access : Access) (sts : List Stmt) (m : Machine σ) :
    Secluded U base values m ((isolation U).comap memory).flow
      (runBlock host config definitions frames access sts) := by
  have counting : Counted (σ := σ) (.onLeft (Secluded U base values))
      ((isolation U).comap memory) config := counted (runContext host config definitions 0)
  have related := counting.runBlock_related host definitions
    (fun frames => steps covered (runContext host config definitions frames))
    (calls covered (runContext host config definitions 0)) frames
  rw [runBlock_eq]
  exact related.execBlock (rfl : access = access) m sts

end Runs

end Secluded

section Assignment

/-- What is recorded leaves every cell as it is. -/
theorem recordStore_cell (d : CellId) (held : Option Variable) (name : String) (type : DataType)
    (value : Value) (address : Option Nat) (old : Option Value) (line : Nat) :
    Preserves (fun m : Machine σ => m.scopes.cell? d = held) (fun _ => True)
      (recordStore name type value address old line) := by
  have steps : Sequential fun _ => Preserves fun m : Machine σ => m.scopes.cell? d = held :=
    Preserves.sequential fun _ _ inv => inv
  unfold recordStore
  dsimp only
  split
  · exact steps.record _ _ _
  · exact steps.record _ _ _

theorem writeArena_cell (d : CellId) (held : Option Variable) (address : Nat) (value : Value) (line : Nat) :
    Preserves (fun m : Machine σ => m.scopes.cell? d = held) (fun _ => True)
      (discard (writeArena address value line)) := by
  refine Preserves.bind (P := fun _ => True) (fun m inv => ?_) fun _ _ => .pure trivial
  rw [writeArena_eq]
  split
  · exact inv
  · exact ⟨inv, trivial⟩

variable {name : String} {c d : CellId} (named : m.scopes.Names m.scopes.current name c) (other : d ≠ c)
  (x : Value) (line : Nat)

include named other

/-- The cell of a name that the innermost scope has is the only one that an update of the name changes. -/
theorem update_other {cell : CellId} {v : Variable} (found : m.find? name = some (cell, v))
    (f : Variable → Variable) : (m.scopes.update cell f).cell? d = m.scopes.cell? d := by
  have same : some cell = some c := (find?_eq_some.1 found).1.symm.trans named.lookup?
  cases same
  exact Scopes.cells_update_of_ne (Ne.symm other)

theorem assignVariable_other : (final (assignVariable name x line m)).scopes.cell? d = m.scopes.cell? d := by
  refine Ends.final (P := (·.scopes.cell? d = _)) (Q := fun _ => True)
    (.find_bind rfl fun ⟨cell, v⟩ found => ?_)
  dsimp only
  split
  · rfl
  · refine .ofExcept_bind rfl fun _ _ => ?_
    have changed := update_other named other found fun v => { v with value := some x }
    cases v.address with
    | none => exact recordStore_cell d _ _ _ _ _ _ line _ changed
    | some a =>
      exact (writeArena_cell d _ a x line _ changed).bind fun _ _ => recordStore_cell d _ _ _ _ _ _ line

theorem assignElement_other (indices : List Int) :
    (final (assignElement name indices x line m)).scopes.cell? d = m.scopes.cell? d := by
  refine Ends.final (P := (·.scopes.cell? d = _)) (Q := fun _ => True)
    (.find_bind rfl fun ⟨cell, v⟩ found => ?_)
  refine .ofExcept_bind rfl fun plan _ => ?_
  exact recordStore_cell d _ _ _ _ _ _ line _ (update_other named other found _)

end Assignment

end Exec

/-- A cell that neither the global nor the innermost scope has a name for, and that has no address. -/
def Machine.Hides (m : Machine σ) (c : CellId) : Prop :=
  ¬ m.scopes.Lists globalScope c ∧ ¬ m.scopes.Lists m.scopes.current c ∧
    ∃ v, m.scopes.cell? c = some v ∧ v.address = none

theorem Machine.Hides.isolated {m : Machine σ} (inv : m.memory.Lifetimes) :
    m.memory.Isolated m.Hides m.scopes.current := by
  refine ⟨inv.mirrors, inv.flat, Nat.sub_one_lt_of_lt inv.global, ?_, ?_, ?_⟩
  · rintro id c listed inside ⟨unlisted, unlisted', -⟩
    rcases inside with rfl | inner
    · exact unlisted listed
    · have live : id < m.scopes.depth := listed.lt_depth
      obtain rfl : id = m.scopes.current := Nat.le_antisymm (Nat.le_sub_one_of_lt live) inner
      exact unlisted' listed
  · rintro c v a there placed ⟨-, -, w, there', free⟩
    cases there.symm.trans there'
    rw [free] at placed
    cases placed
  · rintro c ⟨-, -, v, there, -⟩
    exact (Array.getElem?_eq_some_iff.1 there).1

/-- Let the body of a callable begin. Whatever it does and however it ends, the cells of other calls that
it was not passed and that have no address are then as they were; and if other values were in these
cells, then it would end in the same way, in a state that differs in these values alone. A body begins
when its call has been entered. As long as it runs, a parameter that was passed by value stands for a
cell which is new; to assign to the parameter or to its elements leaves all other cells as they are. -/
theorem isolated_of_callBegins {p : Program} {host : Host σ} {config : Config} {draws : Draws} {state : σ}
    {m : Machine σ} (begins : CallBegins p host config draws state m) :
    (∀ frames access sts,
      let r := runBlock host config p.definitions frames access sts m
      (∀ c, m.Hides c → (final r).scopes.cell? c = m.scopes.cell? c) ∧
      ∀ values, (∀ c, ¬ m.Hides c → values c = none) →
        let r' := runBlock host config p.definitions frames access sts (m.withValues values)
        outcome r' = outcome r ∧ final r' = (final r).withValues values) ∧
    (∃ m₀ d kind bindings line, enter d kind bindings line m₀ = .ok () m) ∧
    ∀ m₀ d kind bindings line, enter d kind bindings line m₀ = .ok () m → (d.params.map (·.name)).Nodup →
      ∀ q v, (q, .copied v) ∈ d.params.zip bindings →
        ∃ c, m₀.scopes.cell? c = none ∧
          m.scopes.cell? c = some (.declared q.type (some v) m.scopes.current) ∧
          (∀ frames access sts,
            let m' := final (runBlock host config p.definitions frames access sts m)
            m'.scopes.Names m'.scopes.current q.name c) ∧
          ∀ (m' : Machine σ) x line indices e, m'.scopes.Names m'.scopes.current q.name c → e ≠ c →
            (final (assignVariable q.name x line m')).scopes.cell? e = m'.scopes.cell? e ∧
            (final (assignElement q.name indices x line m')).scopes.cell? e = m'.scopes.cell? e := by
  have kept (ctx : Context σ) : Kept ctx (lifetime.comap memory) (·.memory.Lifetimes) :=
    Lifetimes.kept.kept ctx
  obtain ⟨m₀, d, kind, bindings, line, inv₀, known, entered⟩ := (kept _).callBegins (.initial _) begins
  have inv : m.memory.Lifetimes :=
    memory_of_enter entered ▸ (inv₀.enter (lifetime.bindings_comap.1 known)).1
  have iso := Hides.isolated inv
  refine ⟨fun frames access sts => ⟨fun c hidden => ?_, fun values covered => ?_⟩,
    ⟨m₀, d, kind, bindings, line, entered⟩, fun m₀ d kind bindings line entered distinct q v passed => ?_⟩
  · have covered (c : CellId) (_ : ¬ m.Hides c) : (none : Option (Option Value)) = none := rfl
    exact ((Secluded.runBlock covered host config p.definitions frames access sts m).1 iso).final.2.2 c hidden
  · have same := (Secluded.runBlock covered host config p.definitions frames access sts m).2 iso
    dsimp only
    rw [same]
    exact ⟨outcome_mapState _ _, final_mapState _ _⟩
  · have opened : m.scopes = m₀.scopes.enter d.params bindings :=
      congrArg Memory.scopes (memory_of_enter entered)
    obtain ⟨c, new, named, held⟩ := Scopes.enter_copied distinct passed (s := m₀.scopes)
    rw [← opened] at named held
    refine ⟨c, Array.getElem?_eq_none new, held, fun frames access sts => ?_,
      fun m' x line indices e here other => ?_⟩
    · obtain ⟨-, grows, depth⟩ :=
        Kept.runBlock (kept <| Semantics.runContext host config p.definitions ·) inv frames access sts
      have current : (final (runBlock host config p.definitions frames access sts m)).scopes.current =
          m.scopes.current := congrArg (· - 1) depth
      exact (current ▸ grows.names named : (final _).scopes.Names _ q.name c)
    · exact ⟨assignVariable_other here other x line, assignElement_other here other x line indices⟩

/-- A procedure that passes a variable of its own by value. -/
def nestedCopy : Program where
  statements :=
    [.define ⟨"Inner", [⟨"x", .boolean, .byValue⟩], none,
        [.assign (.identifier "x" ⟨2, 3⟩) (.literal (.boolean false) ⟨2, 7⟩) ⟨2, 3⟩], ⟨1, 1⟩⟩,
      .define ⟨"Outer", [], none,
        [.declare "a" .boolean ⟨5, 3⟩,
          .assign (.identifier "a" ⟨6, 3⟩) (.literal (.boolean true) ⟨6, 7⟩) ⟨6, 3⟩,
          .call "Inner" [.identifier "a" ⟨7, 14⟩] ⟨7, 3⟩], ⟨4, 1⟩⟩,
      .call "Outer" [] ⟨9, 1⟩]

theorem nestedCopy_isolated :
    ∃ m : Machine Script, CallBegins nestedCopy Script.host { arenaSize := 1030 } 0 {} m ∧ m.Hides 0 ∧
      ∀ frames access sts,
        let r := runBlock Script.host { arenaSize := 1030 } nestedCopy.definitions frames access sts m
        (final r).scopes.cell? 0 = m.scopes.cell? 0 := by
  have shown : ((nestedCopy.bodies Watch.opening Script.host { arenaSize := 1030 } 2
      (.initial { arenaSize := 1030 } 0 {})).seen[1]?).map
        (fun m => (m.scopes.stack.map (·.names), m.scopes.cells.map (·.address))) =
      some (#[[], [("a", 0)], [("x", 1)]], #[none, none]) := by
    decide +kernel
  obtain ⟨m, among, facts⟩ := Option.map_eq_some_iff.1 shown
  obtain ⟨stack, addresses⟩ : m.scopes.stack.map (·.names) = _ ∧ m.scopes.cells.map (·.address) = _ := by
    simpa using facts
  have begins : CallBegins nestedCopy Script.host { arenaSize := 1030 } 0 {} m :=
    ⟨2, List.mem_of_getElem? among⟩
  have only {id : ScopeId} (listed : m.scopes.Lists id 0) : id = 1 := by
    obtain ⟨scope, live, name, member⟩ := listed
    have names : #[[], [("a", 0)], [("x", 1)]][id]? = some scope.names := by
      rw [← stack, Array.getElem?_map, show m.scopes.stack[id]? = some scope from live]
      rfl
    match id, names with
    | 0, names | 2, names =>
      rw [← Option.some.inj names] at member
      simp at member
    | 1, _ => rfl
  have depth : m.scopes.stack.size = 3 := by simpa using congrArg Array.size stack
  have hidden : m.Hides 0 := by
    refine ⟨fun listed => (nomatch only listed), fun listed => ?_, ?_⟩
    · have inner : m.scopes.stack.size - 1 = 1 := only listed
      rw [depth] at inner
      cases inner
    · have first : (m.scopes.cells.map (·.address))[0]? = some none := by rw [addresses]; rfl
      rw [Array.getElem?_map] at first
      exact Option.map_eq_some_iff.1 first
  obtain ⟨isolated, -⟩ := isolated_of_callBegins begins
  exact ⟨m, begins, hidden, fun frames access sts => (isolated frames access sts).1 0 hidden⟩

end Pseudocode
