import Pseudocode.Proofs.Arena.Representation
import Pseudocode.Proofs.Calls
import Pseudocode.Proofs.Lifetime.Invariant

/-!
How long variables keep their blocks (`lifetime_of_run`). A call that ends, however it does, gives back
the blocks of all variables that it declared, and of no others; it never fails to, so that the caller is
told of the body's own end. Nothing but global variables has a block when a run is over.
-/

namespace Pseudocode

open Exec Machine

variable {σ : Type}

theorem Memory.Lifetimes.initial (size : Nat) : Memory.Lifetimes ⟨.initial, .empty size, []⟩ := by
  have scope {id : ScopeId} {scope : Scope} (live : Scopes.initial.scope? id = some scope) :
      id = 0 ∧ scope = .empty none := by
    have listed : [Scope.empty none][id]? = some scope := by
      simpa [Scopes.initial, Scopes.scope?] using live
    obtain ⟨inside, at'⟩ := List.getElem?_eq_some_iff.1 listed
    obtain rfl : id = 0 := by simpa using inside
    exact ⟨rfl, at'.symm⟩
  refine ⟨.empty _ (.empty _), Nat.one_pos, fun id scope' live => ?_, fun named => ?_, fun there => ?_⟩
  · obtain ⟨rfl, rfl⟩ := scope live
    rfl
  · obtain ⟨_, live, named⟩ := named
    obtain ⟨-, rfl⟩ := scope live
    cases named
  · simp [Scopes.initial] at there

/-- The body of a call begins and ends inside the scope of the call. -/
theorem Memory.Lifetimes.inner {m m' : Machine σ}
    (entered : Entered (Memory.lifetime.comap memory) (Memory.Lifetimes ·.memory) m)
    (later : Memory.lifetime.Later m.memory m'.memory) : 1 < m'.scopes.depth := by
  obtain ⟨m₀, d, kind, bindings, line, inv, known, entered⟩ := entered
  rw [memory_of_enter entered] at later
  exact (inv.later_leave (Memory.lifetime.bindings_comap.1 known) later).1

/-- In every state that a run can reach, a variable that is bound to an address is named in the scope that
declared it, which is live. When a call begins, the variables that it shares belong to scopes further
out, and do so still when its body has ended; they keep their addresses and blocks when the call is left.
However a body ends, the call is left without a failure, so that the caller goes on with the body's own
result; the addresses and the blocks that go are those of the variables which the call declared. When a
run is over, all bound variables are global. -/
theorem lifetime_of_run (p : Program) (host : Host σ) (config : Config) (draws : Draws) (state : σ) :
    (∀ m, Reachable p host config draws state m → ∀ a c, m.bound.lookup a = some c →
      ∃ v name, m.scopes.cell? c = some v ∧ m.scopes.Names v.owner name c) ∧
    (∀ m, CallBegins p host config draws state m →
      ∃ m₀ d kind bindings line, enter d kind bindings line m₀ = .ok () m ∧
        ∀ q c, (q, .shared c) ∈ d.params.zip bindings → ∀ frames access sts,
          let m' := final (runBlock host config p.definitions frames access sts m)
          m'.scopes.current = m.scopes.current ∧
          ∃ v name, m'.scopes.cell? c = some v ∧ v.owner < m'.scopes.current ∧
            m'.scopes.Names v.owner name c ∧ ∀ a, v.address = some a → ∃ m'', leave line m' = .ok () m'' ∧
              m''.bound.lookup a = some c ∧ ∃ b ∈ m''.arena.blocks, b.start = a) ∧
    (∀ m, CallEnds p host config draws state m → ∀ line, ∃ m', leave line m = .ok () m' ∧
      (∀ result, outcome (closeCall line result m) = result.map (·, m.line) ∧
        final (closeCall line result m) = m') ∧
      (∀ a c, m'.bound.lookup a = some c ↔ m.bound.lookup a = some c ∧
        ∀ v, m.scopes.cell? c = some v → v.owner ≠ m.scopes.current) ∧
      ∀ b, b ∈ m'.arena.blocks ↔ b ∈ m.arena.blocks ∧
        ∀ c v, m.scopes.cell? c = some v → v.address = some b.start → v.owner ≠ m.scopes.current) ∧
    ∀ a c, (final (p.exec host config (.initial config draws state))).bound.lookup a = some c →
      ∃ v, (final (p.exec host config (.initial config draws state))).scopes.cell? c = some v ∧
        v.owner = globalScope := by
  have kept (ctx : Context σ) : Kept ctx (Memory.lifetime.comap memory) (Memory.Lifetimes ·.memory) :=
    Memory.Lifetimes.kept.kept ctx
  have initial : (Machine.initial config draws state).memory.Lifetimes := .initial _
  refine ⟨fun m reached a c bound => ?_, fun m begins => ?_, fun m ends line => ?_, fun a c bound => ?_⟩
  · have inv : m.memory.Lifetimes := (kept _).reachable initial reached
    exact inv.rooted_of_bound bound
  · obtain ⟨m₀, d, kind, bindings, line, inv, known, entered⟩ := (kept _).callBegins initial begins
    refine ⟨m₀, d, kind, bindings, line, entered, fun q c shared frames access sts => ?_⟩
    have known := Memory.lifetime.bindings_comap.1 known
    have begun := memory_of_enter entered
    obtain ⟨inv₁, -, -⟩ := inv.enter known
    rw [← begun] at inv₁
    obtain ⟨inv', later⟩ :=
      Kept.runBlock (kept <| Semantics.runContext host config p.definitions ·) inv₁ frames access sts
    have inside : Memory.lifetime.Later m.memory _ := later
    rw [begun] at inside
    obtain ⟨v, name, there, outer, named⟩ := inv.shared_later known inside shared
    obtain ⟨inner, -⟩ := inv.later_leave known inside
    refine ⟨congrArg (· - 1) later.2, v, name, there, outer, named, fun a placed => ?_⟩
    obtain ⟨t, left⟩ := leave_eq inv'.mirrors line
    exact ⟨_, left, inv'.placed_leave inner there (Nat.ne_of_lt outer) placed⟩
  · obtain ⟨inv, m₁, entered, later⟩ := (kept _).callEnds initial ends
    have inner := Memory.Lifetimes.inner entered later
    obtain ⟨t, left⟩ := leave_eq inv.mirrors line
    exact ⟨_, left, fun result => closeCall_of_leave left result, inv.bound_leave inner,
      inv.blocks_leave inner⟩
  · obtain ⟨inv, -, depth⟩ := (kept ⟨host, config, p.definitions, none⟩).final initial
    obtain ⟨v, name, there, named⟩ := inv.rooted_of_bound bound
    have outermost : v.owner < 1 := Nat.lt_of_lt_of_eq named.lt_depth depth
    exact ⟨v, there, Nat.lt_one_iff.1 outermost⟩

/-- A procedure that takes the addresses of what it is passed, once by reference and once by value. -/
def addressTaker : Program where
  statements :=
    [.define ⟨"Take", [⟨"x", .boolean, .byReference⟩, ⟨"y", .boolean, .byValue⟩], none,
        [.declare "q" (.pointer .boolean) ⟨2, 3⟩,
          .assign (.identifier "q" ⟨3, 3⟩) (.addressOf (.identifier "x" ⟨3, 8⟩) ⟨3, 7⟩) ⟨3, 3⟩,
          .assign (.identifier "q" ⟨4, 3⟩) (.addressOf (.identifier "y" ⟨4, 8⟩) ⟨4, 7⟩) ⟨4, 3⟩], ⟨1, 1⟩⟩,
      .declare "b" .boolean ⟨6, 1⟩,
      .assign (.identifier "b" ⟨7, 1⟩) (.literal (.boolean true) ⟨7, 5⟩) ⟨7, 1⟩,
      .call "Take" [.identifier "b" ⟨8, 11⟩, .identifier "b" ⟨8, 14⟩] ⟨8, 1⟩]

theorem addressTaker_released :
    ∃ m m' : Machine Script, CallEnds addressTaker Script.host { arenaSize := 1030 } 0 {} m ∧
      leave 8 m = .ok () m' ∧ m.bound = [(1025, 1), (1024, 0)] ∧ m'.bound.lookup 1024 = some 0 ∧
      m'.bound.lookup 1025 = none := by
  have shown : (addressTaker.bodies Watch.closing Script.host { arenaSize := 1030 } 1
      (.initial { arenaSize := 1030 } 0 {})).seen.map
        (fun m => (m.bound, m.scopes.current, m.scopes.cells.map (·.owner))) =
      [([(1025, 1), (1024, 0)], 1, #[0, 1, 1])] := by
    decide +kernel
  obtain ⟨m, among, facts⟩ := List.mem_map.1 (shown ▸ List.mem_singleton_self _)
  obtain ⟨bound, current, owners⟩ : m.bound = _ ∧ m.scopes.current = _ ∧
    m.scopes.cells.map (·.owner) = _ := by
    simpa using facts
  have owner (c : CellId) : (m.scopes.cells[c]?).map (·.owner) = #[0, 1, 1][c]? := by
    rw [← owners, Array.getElem?_map]
  have ends : CallEnds addressTaker Script.host { arenaSize := 1030 } 0 {} m := ⟨1, among⟩
  obtain ⟨m', left, -, kept, -⟩ :=
    (lifetime_of_run addressTaker Script.host { arenaSize := 1030 } 0 {}).2.2.1 m ends 8
  refine ⟨m, m', ends, left, bound, (kept 1024 0).2 ⟨by rw [bound]; rfl, fun v there => ?_⟩, ?_⟩
  · have own := owner 0
    rw [show m.scopes.cells[0]? = some v from there] at own
    rw [show v.owner = 0 from Option.some.inj own, current]
    decide
  · refine Option.eq_none_iff_forall_ne_some.2 fun c still => ?_
    obtain ⟨was, other⟩ := (kept 1025 c).1 still
    rw [bound] at was
    cases was
    obtain ⟨v, there, own⟩ := Option.map_eq_some_iff.1 (owner 1)
    exact other v there (own.trans current.symm)

end Pseudocode
