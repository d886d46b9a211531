import Pseudocode.Proofs.Arena.History

/-!
How frees that are refused are diagnosed. An address at which no live block starts is freed twice if a block
that started there was given back before, and freed without reason otherwise (`frees_are_diagnosed`). That an
address lies inside a live block makes no difference: only a block that starts at an address takes it off
the list of those that were given back, not one that covers it.
-/

namespace Pseudocode.Arena

/-- The addresses that are listed as given back are those of which the history tells so, but for the starts of
live blocks. -/
structure Listed (events : List Event) (a : Arena) : Prop where
  layout : a.Layout
  size : a.freed.size = a.size
  freed (i : Nat) : a.freed.getD i false = true ↔ .gaveBack i ∈ events ∧ ∀ b ∈ a.blocks, b.start ≠ i

namespace Listed

theorem empty (size : Nat) : Listed [] (Arena.empty size) where
  layout := .empty size
  size := by simp [Arena.empty, Arena.size]
  freed i := by
    by_cases inside : i < size <;> simp [Arena.empty, inside]

variable {events : List Event} {a : Arena} (h : Listed events a)
include h

/-- A new block takes its start off the list, and no other address that it covers. -/
theorem took {size start : Nat} (placed : a.place size = .ok start) (tag : String) :
    Listed (events ++ [.took ⟨start, size, tag⟩]) (a.occupy start size tag) := by
  obtain ⟨positive, -, room, -⟩ := place_ok placed
  have inside : start < a.freed.size := by
    rw [h.size]
    omega
  refine ⟨h.layout.occupy placed tag, ?_, fun i => ?_⟩
  · rw [size_occupy, ← h.size]
    exact Array.size_setIfInBounds
  · show (a.freed.setIfInBounds start false).getD i false = true ↔ _
    rw [getD_setIfInBounds]
    by_cases same : i = start
    · rw [if_pos ⟨same, inside⟩]
      refine iff_of_false Bool.false_ne_true fun listed => ?_
      exact listed.2 _ List.mem_cons_self same.symm
    · rw [if_neg fun both => same both.1, h.freed]
      simp [occupy, Ne.symm same]

/-- A block that goes puts its start on the list. -/
theorem gaveBack {address : Nat} {block : Block} (found : a.freeable address = .ok block) :
    Listed (events ++ [.gaveBack address]) (a.vacate block) := by
  obtain ⟨member, rfl⟩ := freeable_ok found
  have inside : block.start < a.freed.size := by
    have positive := h.layout.nonempty block member
    have high := h.layout.high block member
    rw [h.size]
    unfold Block.stop at high
    omega
  refine ⟨h.layout.vacate member, ?_, fun i => ?_⟩
  · rw [size_vacate, ← h.size]
    exact Array.size_setIfInBounds
  · show (a.freed.setIfInBounds block.start true).getD i false = true ↔ _
    rw [getD_setIfInBounds]
    simp only [h.layout.mem_vacate member, List.mem_append, List.mem_singleton]
    by_cases same : i = block.start
    · rw [if_pos ⟨same, inside⟩, same]
      simp
    · rw [if_neg fun both => same both.1, h.freed]
      have other : Event.gaveBack i ≠ .gaveBack block.start := by simpa using same
      simp only [other, or_false]
      refine and_congr_right fun _ => ⟨fun free b kept => free b kept.1, fun free b live starts => ?_⟩
      exact free b ⟨live, starts ▸ same⟩ starts

theorem call (c : Call) : Listed (events ++ (a.event? c).toList) (a.call c) := by
  rcases a.call_event_cases c with ⟨nothing, same⟩ | ⟨size, tag, start, placed, event, after⟩ |
      ⟨address, block, found, event, after⟩ | ⟨address, value, s, granted, event, after⟩
  · simpa [nothing, same] using h
  · rw [event, after]
    exact h.took placed tag
  · rw [event, after]
    exact h.gaveBack found
  · -- A write moves no block.
    obtain ⟨-, -, rfl, taken⟩ := access_ok granted
    rw [event, after]
    refine ⟨h.layout.put taken value, ?_, fun i => ?_⟩
    · rw [size_put]
      exact h.size
    · show a.freed.getD i false = true ↔ _
      rw [h.freed]
      simp [put]

theorem after (calls : List Call) : Listed (events ++ a.history calls) (a.after calls) :=
  after_induction (fun _ _ c h => h.call c) h calls

end Listed

theorem free_of_start {a : Arena} (layout : a.Layout) {b : Block} (member : b ∈ a.blocks) :
    a.free b.start = .ok (b, a.vacate b) := by
  simp [free, layout.freeable_start member, bind, Except.bind, pure, Except.pure]

theorem free_of_no_start {a : Arena} {i : Nat} (free : ∀ b ∈ a.blocks, b.start ≠ i) :
    a.free i = .error (if a.freed.getD i false then .doubleFree i else .invalidFree i) := by
  have missing : a.blocks.find? (·.start == i) = none := by simpa using free
  simp [Arena.free, freeable, missing, bind, Except.bind]

/-- How a free of an address is answered, as the history asks for. -/
structure Diagnosed (events : List Event) (a : Arena) (i : Nat) : Prop where
  freed : (∃ b after, a.free i = .ok (b, after)) ↔ ∃ b ∈ a.blocks, b.start = i
  doubleFree : a.free i = .error (.doubleFree i) ↔ (∀ b ∈ a.blocks, b.start ≠ i) ∧ .gaveBack i ∈ events
  invalidFree : a.free i = .error (.invalidFree i) ↔ (∀ b ∈ a.blocks, b.start ≠ i) ∧ .gaveBack i ∉ events
  /-- Outside of every live block the history alone decides. -/
  outside : a.isAllocated i = false →
    (a.free i = .error (.doubleFree i) ↔ .gaveBack i ∈ events) ∧
    (a.free i = .error (.invalidFree i) ↔ .gaveBack i ∉ events)
  /-- So it does inside of a live block, behind its start. -/
  inside : ∀ b ∈ a.blocks, b.start < i → i < b.stop →
    (a.free i = .error (.doubleFree i) ↔ .gaveBack i ∈ events) ∧
    (a.free i = .error (.invalidFree i) ↔ .gaveBack i ∉ events)

theorem Listed.diagnosed {events : List Event} {a : Arena} (h : Listed events a) (i : Nat) :
    Diagnosed events a i := by
  by_cases starts : ∃ b ∈ a.blocks, b.start = i
  · obtain ⟨b, member, rfl⟩ := starts
    have taken := free_of_start h.layout member
    have covered := Block.contains_start (h.layout.nonempty b member)
    have live : ¬∀ c ∈ a.blocks, c.start ≠ b.start := fun free => free b member rfl
    refine ⟨?_, ?_, ?_, fun unallocated => ?_, fun c other before behind => ?_⟩
    · exact iff_of_true ⟨b, _, taken⟩ ⟨b, member, rfl⟩
    · simp [taken, live]
    · simp [taken, live]
    · have allocated := (h.layout.taken b.start).mpr ⟨b, member, covered⟩
      rw [allocated] at unallocated
      cases unallocated
    · -- Two live blocks would cover the start of the second.
      have same := h.layout.eq_of_contains other member (Block.contains_iff.mpr ⟨by omega, behind⟩) covered
      rw [same] at before
      omega
  · have free : ∀ b ∈ a.blocks, b.start ≠ i := fun b member same => starts ⟨b, member, same⟩
    have refused := free_of_no_start free
    have listed : a.freed.getD i false = true ↔ .gaveBack i ∈ events :=
      (h.freed i).trans (and_iff_left free)
    have twice : a.free i = .error (.doubleFree i) ↔ .gaveBack i ∈ events := by
      rw [refused, ← listed]
      split <;> simp_all
    have never : a.free i = .error (.invalidFree i) ↔ .gaveBack i ∉ events := by
      rw [refused, ← listed]
      split <;> simp_all
    refine ⟨?_, ?_, ?_, fun _ => ⟨twice, never⟩, fun _ _ _ _ => ⟨twice, never⟩⟩
    · simp [refused, starts]
    · rw [twice, and_iff_right free]
    · rw [never, and_iff_right free]

/-- Whatever was called before, a free gives back the live block that starts at the address. Where none does, it
is a double free exactly if a block that started there was given back before, and an invalid one otherwise. -/
theorem frees_are_diagnosed (size : Nat) (calls : List Call) (i : Nat) :
    Diagnosed ((empty size).history calls) ((empty size).after calls) i :=
  ((Listed.empty size).after calls).diagnosed i

/-- Two blocks are given back and a larger one is placed over both. The start of the second lies inside of the
larger one then, and still a free of it is a double free. -/
theorem interior_double_free :
    let calls : List Call := [.allocate 1 "A", .allocate 1 "B", .free 1025, .free 1024, .allocate 2 "C"]
    let a := (empty 2048).after calls
    a.blocks = [⟨1024, 2, "C"⟩] ∧ a.isAllocated 1025 = true ∧ a.free 1025 = .error (.doubleFree 1025) := by
  intro calls a
  have here : a.blocks = [⟨1024, 2, "C"⟩] ∧ a.isAllocated 1025 = true ∧ a.freed.getD 1025 false = true := by
    decide +kernel
  clear_value a
  obtain ⟨blocks, inside, listed⟩ := here
  refine ⟨blocks, inside, ?_⟩
  rw [free_of_no_start, if_pos listed]
  simp [blocks]

end Pseudocode.Arena
