import Pseudocode.Proofs.Arena.Extension
import Pseudocode.Proofs.Comparison.Runs
import Pseudocode.Proofs.Trace.Runs

/-!
Nothing a program does depends on the size of the arena, as long as the arena is not too small for it
(`arena_size_unobservable`).
-/

namespace Pseudocode

open Exec Machine

variable {σ : Type}

/-- The arena is too small for what was asked of it. -/
def Cause.BeyondArena : Cause → Prop
  | .memory (.outOfMemory _) => True
  | .memory (.outOfBounds _ _) => True
  | _ => False

namespace Exec.Tracks

variable {Outer : Transcript × σ → Transcript × σ → Prop}

theorem allocate (size : Nat) (tag : String) (line : Nat) :
    Tracks (Beside Arena.Extends Outer) Cause.BeyondArena (fun _ => True) (allocate size tag line) := by
  rintro m _ @⟨arena, _, _, arenas, outer⟩
  rw [allocate_eq, allocate_eq, arena_besides]
  rcases arenas.place size with full | same
  · rw [full]
    exact ⟨trivial, .inl trivial⟩
  · rw [same]
    cases placed : m.arena.place size with
    | error fault => exact ⟨trivial, .inr ⟨_, rfl, .mk arenas outer⟩⟩
    | ok start => exact ⟨⟨trivial, trivial⟩, _, rfl, .mk (arenas.occupy placed tag) outer⟩

theorem release (address line : Nat) :
    Tracks (Beside Arena.Extends Outer) Cause.BeyondArena (fun _ => True) (release address line) := by
  rintro m _ @⟨arena, _, _, arenas, outer⟩
  rw [release_eq, release_eq, arena_besides]
  rw [arenas.freeable]
  cases found : m.arena.freeable address with
  | error fault => exact ⟨trivial, .inr ⟨_, rfl, .mk arenas outer⟩⟩
  | ok block => exact ⟨⟨trivial, trivial⟩, _, rfl, .mk (arenas.vacate (Arena.freeable_ok found).1) outer⟩

theorem writeArena (address : Nat) (value : Value) (line : Nat) :
    Tracks (Beside Arena.Extends Outer) Cause.BeyondArena (fun _ => True) (writeArena address value line) := by
  rintro m _ @⟨arena, _, _, arenas, outer⟩
  rw [writeArena_eq, writeArena_eq, arena_besides]
  rcases arenas.access address with outside | same
  · rw [outside]
    exact ⟨trivial, .inl trivial⟩
  · rw [same]
    cases granted : m.arena.access address with
    | error fault => exact ⟨trivial, .inr ⟨_, rfl, .mk arenas outer⟩⟩
    | ok slot => exact ⟨⟨trivial, trivial⟩, _, rfl, .mk (arenas.put granted value) outer⟩

theorem readThrough (address line : Nat) :
    Tracks (Beside Arena.Extends Outer) Cause.BeyondArena (fun _ => True) (readThrough address line) := by
  refine Tracking.look ?_
  rintro m _ @⟨arena, _, _, arenas, -⟩
  rw [arena_besides]
  rcases arenas.read address with outside | same
  · rw [outside]
    exact Tracking.excused trivial _
  · rw [same]
    cases m.arena.read address with
    | error fault => exact Tracking.throw _
    | ok value =>
      refine Tracking.bind (record _ _ _) fun _ _ => ?_
      exact Tracking.bind (record _ _ _) fun _ _ => Tracking.pure trivial

theorem allocateBlock (size : Float) (tag : Option DataType) (line : Nat) :
    Tracks (Beside Arena.Extends Outer) Cause.BeyondArena (fun _ => True) (allocateBlock size tag line) := by
  unfold Exec.allocateBlock
  split
  · exact Tracking.throw _
  · refine Tracking.look ?_
    rintro m _ @⟨arena, transcript, host, arenas, -⟩
    by_cases large : m.arena.size < Number.toWord64 size
    · rw [if_pos large]
      exact Tracking.excused trivial _
    · have fits : ¬ (m.besides arena m.trace transcript host).arena.size < Number.toWord64 size :=
        fun below => large (Nat.lt_of_le_of_lt arenas.room below)
      rw [if_neg large, if_neg fits]
      refine Tracking.bind (allocate _ _ line) fun address _ => ?_
      exact Tracking.bind (record _ _ _) fun _ _ => Tracking.pure trivial

theorem arenaSteps_of_extends : ArenaSteps (Tracks (Beside Arena.Extends Outer) Cause.BeyondArena) where
  toSequences := Tracking.sequences
  look blind := look fun m _ ⟨_, _⟩ => blind m _ m.trace _ _
  setVariables blind _ _ := modify blind
  record := record
  allocate _ _ _ _ := allocate _ _ _
  release _ _ _ := release _ _
  writeArena _ _ _ _ := writeArena _ _ _
  readThrough _ _ _ := readThrough _ _
  allocateBlock _ _ _ _ := allocateBlock _ _ _

end Exec.Tracks

theorem Following.ofArenaSize (ctx : Context σ) (size : Nat) :
    Following ctx { ctx.config with arenaSize := size } Arena.Extends Eq Cause.BeyondArena where
  memorySteps := Tracks.arenaSteps_of_extends.memorySteps
  hostSteps := Tracks.hostSteps ctx
  budget := (Tracks.hostSteps ctx).checkBudget
  permit := Tracks.permit ctx.config
  pause := (Tracks.hostSteps ctx).pause
  echo := (Tracks.hostSteps ctx).echo

/-- The size of the arena is not seen until the arena is exhausted. If a run does not end because there was no
room for a block, or because an address lay behind the last slot, then in a larger arena the program has the
same outcome or error, asks the same of the host in the same order, and ends in the same state but for the
slots behind those of the smaller arena, which are free: variables and files, trace and transcript are the
same, and so are the blocks with their addresses, the watermark and what each slot holds. -/
theorem arena_size_unobservable (p : Program) (host : Host σ) (config : Config) (draws : Draws) (state : σ)
    {size : Nat} (larger : config.arenaSize ≤ size)
    (room : ∀ requested line, outcome (p.exec host.logged config (.initial config draws (state, []))) ≠
      .error ⟨.memory (.outOfMemory requested), line⟩)
    (inside : ∀ address bound line, outcome (p.exec host.logged config (.initial config draws (state, []))) ≠
      .error ⟨.memory (.outOfBounds address bound), line⟩) :
    let small := p.exec host.logged config (.initial config draws (state, []))
    let large := p.exec host.logged { config with arenaSize := size }
      (.initial { config with arenaSize := size } draws (state, []))
    outcome large = outcome small ∧ final large = { final small with arena := (final large).arena } ∧
      (final large).arena.blocks = (final small).arena.blocks ∧
      (final large).arena.watermark = (final small).arena.watermark ∧
      ∀ address, (final large).arena.slot address = (final small).arena.slot address := by
  intro small large
  have initial : Beside Arena.Extends Eq (Machine.initial config draws (state, ([] : List Interaction)))
      (.initial { config with arenaSize := size } draws (state, [])) := .mk (.empty larger) rfl
  have followed := (Following.ofArenaSize ⟨host.logged, config, p.definitions, none⟩ size).exec initial
  obtain ⟨same, beside⟩ := followed.same fun e ended beyond => by
    obtain ⟨cause, line⟩ := e
    cases cause with
    | memory fault =>
      cases fault with
      | outOfMemory requested => exact room requested line ended
      | outOfBounds address bound => exact inside address bound line ended
      | _ => exact beyond
    | _ => exact beyond
  refine ⟨same, ?_⟩
  generalize final large = last at beside
  obtain @⟨arena, transcript, host, arenas, outer⟩ := beside
  cases outer
  exact ⟨rfl, arenas.blocks, arenas.watermark, arenas.slot⟩

/-- The arena has one slot that is not reserved, and the program needs it. -/
theorem pointerWrite_in_larger_arena :
    let small := pointerWrite.exec Script.host.logged { arenaSize := 1025 }
      (.initial { arenaSize := 1025 } 0 ({}, []))
    let large := pointerWrite.exec Script.host.logged { arenaSize := 65536 }
      (.initial { arenaSize := 65536 } 0 ({}, []))
    1025 ≤ 65536 ∧ (final small).arena.freeTail = 0 ∧ (outcome small).isOk = true ∧
      outcome large = outcome small ∧ (final large).arena.blocks = (final small).arena.blocks := by
  intro small large
  have full : (final small).arena.freeTail = 0 := by decide +kernel
  have completes : (outcome small).isOk = true := by decide +kernel
  have ended {e : RuntimeError} (failed : outcome small = .error e) : False := by
    rw [failed] at completes
    cases completes
  obtain ⟨same, -, blocks, -⟩ := arena_size_unobservable pointerWrite Script.host { arenaSize := 1025 } 0 {}
    (show 1025 ≤ 65536 by decide) (fun _ _ => ended) fun _ _ _ => ended
  exact ⟨by decide, full, completes, same, blocks⟩

end Pseudocode
