import Pseudocode.Proofs.Arena.Representation
import Pseudocode.Proofs.Mirror.Invariant
import Pseudocode.Proofs.Observation

/-!
Arenas as stores that check what is asked of them. What an arena answers is told by its history alone: an
address may be used while the block that it lies in is live, and holds what was last written to it since
that block was taken (`answers_after_calls`). So nothing that an earlier block held is seen in a later one
at the same place.
-/

namespace Pseudocode

theorem Slot.mirror_injective {x y : Option Value} (same : mirror x = mirror y) : x = y := by
  cases x <;> cases y <;> cases same <;> rfl

@[simp] theorem Slot.value?_mirror (value : Option Value) : (mirror value).value? = value := by
  cases value <;> rfl

namespace Arena

/-- What one call preserves holds along a history. -/
theorem after_induction {P : List Event → Arena → Prop}
    (step : ∀ events a c, P events a → P (events ++ (a.event? c).toList) (a.call c)) {events : List Event} {a : Arena}
    (h : P events a) (calls : List Call) : P (events ++ a.history calls) (a.after calls) := by
  induction calls generalizing events a with
  | nil => simpa [history, after] using h
  | cons c rest ih =>
    have next := ih (step events a c h)
    rw [List.append_assoc] at next
    exact next

/-- A block was taken, and not given back by what has happened since. -/
def LiveSince (events : List Event) (b : Block) (since : List Event) : Prop :=
  (∃ before, events = before ++ .took b :: since) ∧ .gaveBack b.start ∉ since

/-- What an event has written to an address. -/
def Event.writtenAt (i : Nat) : Event → Option Value
  | .wrote address v => if address = i then some v else none
  | _ => none

def lastWritten (events : List Event) (i : Nat) : Option Value :=
  (events.filterMap (Event.writtenAt i)).getLast?

theorem lastWritten_append (events : List Event) (e : Event) (i : Nat) :
    lastWritten (events ++ [e]) i = (e.writtenAt i).or (lastWritten events i) := by
  unfold lastWritten
  cases written : e.writtenAt i <;> simp [List.filterMap_append, written]

/-- A block that is live after one more event was taken by it, or was live before and is not given back. -/
theorem liveSince_append {events : List Event} {e : Event} {b : Block} {since : List Event} :
    LiveSince (events ++ [e]) b since ↔
      since = [] ∧ e = .took b ∨
        ∃ earlier, since = earlier ++ [e] ∧ e ≠ .gaveBack b.start ∧ LiveSince events b earlier := by
  constructor
  · rintro ⟨⟨before, whole⟩, kept⟩
    rcases List.eq_nil_or_concat since with rfl | ⟨earlier, last, rfl⟩
    · left
      simpa using (List.append_inj' whole rfl).2
    · right
      have split : events ++ [e] = (before ++ .took b :: earlier) ++ [last] := by simpa using whole
      obtain ⟨rfl, same⟩ := List.append_inj' split rfl
      obtain rfl : e = last := by simpa using same
      rw [List.concat_eq_append, List.mem_append, List.mem_singleton, not_or] at kept
      exact ⟨earlier, List.concat_eq_append, Ne.symm kept.2, ⟨before, rfl⟩, kept.1⟩
  · rintro (⟨rfl, rfl⟩ | ⟨earlier, rfl, other, ⟨before, rfl⟩, kept⟩)
    · exact ⟨⟨events, rfl⟩, by simp⟩
    · refine ⟨⟨before, by simp⟩, ?_⟩
      simp [kept, Ne.symm other]

/-- The live blocks are those that were taken and not given back, and each of their slots holds what was
last written to it since. -/
structure Chronicle (events : List Event) (a : Arena) : Prop where
  layout : a.Layout
  live {b : Block} {since : List Event} : LiveSince events b since → b ∈ a.blocks
  since {b : Block} : b ∈ a.blocks → ∃ since, LiveSince events b since
  slot {b : Block} {since : List Event} {i : Nat} :
    LiveSince events b since → b.contains i = true → a.slot i = .mirror (lastWritten since i)

namespace Chronicle

theorem empty (size : Nat) : Chronicle [] (Arena.empty size) := by
  have none {b : Block} {since : List Event} : ¬ LiveSince [] b since := by
    rintro ⟨⟨before, whole⟩, -⟩
    simp at whole
  refine ⟨.empty size, fun live => absurd live none, fun member => ?_, fun live => absurd live none⟩
  cases member

variable {events : List Event} {a : Arena} (h : Chronicle events a)
include h

/-- A new block lies where no slot was taken, so older blocks keep what they hold. -/
theorem took {size start : Nat} (placed : a.place size = .ok start) (tag : String) :
    Chronicle (events ++ [.took ⟨start, size, tag⟩]) (a.occupy start size tag) := by
  obtain ⟨-, -, room, free⟩ := place_ok placed
  refine ⟨h.layout.occupy placed tag, fun live => ?_, fun {b} member => ?_, fun {b since i} live inside => ?_⟩
  · rcases liveSince_append.1 live with ⟨-, same⟩ | ⟨earlier, -, -, before⟩
    · cases same
      exact List.mem_cons_self
    · exact List.mem_cons_of_mem _ (h.live before)
  · rcases List.mem_cons.1 member with rfl | old
    · exact ⟨[], liveSince_append.2 (.inl ⟨rfl, rfl⟩)⟩
    · obtain ⟨since, before⟩ := h.since old
      exact ⟨_, liveSince_append.2 (.inr ⟨since, rfl, by simp, before⟩)⟩
  · rw [slot_occupy]
    rcases liveSince_append.1 live with ⟨rfl, same⟩ | ⟨earlier, rfl, -, before⟩
    · cases same
      have within : start ≤ i ∧ i < start + size := Block.contains_iff.1 inside
      rw [if_pos (by omega)]
      rfl
    · have taken := (h.layout.taken i).2 ⟨b, h.live before, inside⟩
      rw [if_neg, h.slot before inside, lastWritten_append]
      · rfl
      · rintro ⟨low, high, -⟩
        rw [free i low high] at taken
        cases taken

/-- A block that goes lies apart from the others. -/
theorem gaveBack {address : Nat} {block : Block} (found : a.freeable address = .ok block) :
    Chronicle (events ++ [.gaveBack address]) (a.vacate block) := by
  obtain ⟨member, rfl⟩ := freeable_ok found
  refine ⟨h.layout.vacate member, fun {b since} live => ?_, fun {b} kept => ?_, fun {b since i} live inside => ?_⟩
  · rcases liveSince_append.1 live with ⟨-, same⟩ | ⟨earlier, -, other, before⟩
    · cases same
    · exact (h.layout.mem_vacate member b).2 ⟨h.live before, fun same => other (by rw [same])⟩
  · obtain ⟨old, other⟩ := (h.layout.mem_vacate member b).1 kept
    obtain ⟨since, before⟩ := h.since old
    refine ⟨_, liveSince_append.2 (.inr ⟨since, rfl, ?_, before⟩)⟩
    simpa using Ne.symm other
  · rcases liveSince_append.1 live with ⟨-, same⟩ | ⟨earlier, rfl, other, before⟩
    · cases same
    · have outside : ¬(block.start ≤ i ∧ i < block.stop) := by
        intro within
        have same := h.layout.eq_of_contains member (h.live before) (Block.contains_iff.2 within) inside
        exact other (by rw [same])
      rw [slot_vacate, if_neg outside, h.slot before inside, lastWritten_append]
      rfl

theorem wrote {address : Nat} {s : Slot} (granted : a.access address = .ok s) (v : Value) :
    Chronicle (events ++ [.wrote address v]) (a.put address v) := by
  obtain ⟨-, -, -, taken⟩ := access_ok granted
  refine ⟨h.layout.put taken v, fun live => ?_, fun member => ?_,
    fun {b since i} live here => ?_⟩
  · rcases liveSince_append.1 live with ⟨-, same⟩ | ⟨earlier, -, -, before⟩
    · cases same
    · exact h.live before
  · obtain ⟨since, before⟩ := h.since member
    exact ⟨_, liveSince_append.2 (.inr ⟨since, rfl, by simp, before⟩)⟩
  · rcases liveSince_append.1 live with ⟨-, same⟩ | ⟨earlier, rfl, -, before⟩
    · cases same
    · rw [slot_put, lastWritten_append, h.slot before here]
      by_cases same : i = address
      · simp [same, taken, Event.writtenAt, Slot.mirror]
      · simp [same, Ne.symm same, Event.writtenAt]

/-- One call goes on with the history. -/
theorem call (c : Call) : Chronicle (events ++ (a.event? c).toList) (a.call c) := by
  rcases a.call_event_cases c with ⟨nothing, same⟩ | ⟨size, tag, start, placed, event, after⟩ |
      ⟨address, block, found, event, after⟩ | ⟨address, value, s, granted, event, after⟩
  · simpa [nothing, same] using h
  · rw [event, after]
    exact h.took placed tag
  · rw [event, after]
    exact h.gaveBack found
  · rw [event, after]
    exact h.wrote granted value

theorem after (calls : List Call) : Chronicle (events ++ a.history calls) (a.after calls) :=
  after_induction (fun _ _ c h => h.call c) h calls

/-- The state of a slot in a live block is told by what was last written to it. -/
theorem slot_eq_mirror_iff (i : Nat) (value : Option Value) :
    a.slot i = .mirror value ↔
      ∃ b since, LiveSince events b since ∧ b.contains i = true ∧ lastWritten since i = value := by
  constructor
  · intro held
    have taken : a.isAllocated i = true := by
      rw [← isAllocated_slot, held, Slot.isAllocated_mirror]
    obtain ⟨b, member, inside⟩ := (h.layout.taken i).1 taken
    obtain ⟨since, live⟩ := h.since member
    refine ⟨b, since, live, inside, ?_⟩
    apply Slot.mirror_injective
    rw [← h.slot live inside, held]
  · rintro ⟨b, since, live, inside, rfl⟩
    exact h.slot live inside

/-- The slots in live blocks are those that are taken. -/
theorem isAllocated_iff (i : Nat) :
    a.isAllocated i = true ↔ ∃ b since, LiveSince events b since ∧ b.contains i = true := by
  rw [h.layout.taken]
  constructor
  · rintro ⟨b, member, inside⟩
    obtain ⟨since, live⟩ := h.since member
    exact ⟨b, since, live, inside⟩
  · rintro ⟨b, since, live, inside⟩
    exact ⟨b, h.live live, inside⟩

end Chronicle

section Reading

variable (a : Arena) (i : Nat)

theorem read_eq : a.read i =
    if i = 0 then .error .nullDereference
    else if a.size ≤ i then .error (.outOfBounds i a.size)
    else match a.slot i with
      | .unallocated => .error (.notAllocated i)
      | .unwritten => .error (.uninitialized i)
      | .holding v => .ok v := by
  unfold read access
  by_cases null : i = 0
  · simp [null, bind, Except.bind]
  · by_cases outside : a.size ≤ i
    · simp [null, outside, bind, Except.bind]
    · cases held : a.slot i <;>
        simp [null, outside, bind, Except.bind, pure, Except.pure, throw, throwThe,
          MonadExceptOf.throw]

/-- A slot that is taken can be read, unless nothing was written to it. -/
theorem read_of_mirror {value : Option Value} (nonzero : i ≠ 0) (held : a.slot i = .mirror value) :
    a.read i = value.elim (.error (.uninitialized i)) .ok := by
  have inside : i < a.size := lt_size_of_isAllocated (by rw [← isAllocated_slot, held, Slot.isAllocated_mirror])
  rw [read_eq, if_neg nonzero, if_neg (by omega), held]
  cases value <;> rfl

end Reading

section Inversion

variable {a : Arena}

theorem write_ok {i : Nat} {v : Value} {old : Option Value} {after : Arena}
    (wrote : a.write i v = .ok (old, after)) :
    ∃ s, a.access i = .ok s ∧ old = s.value? ∧ after = a.put i v := by
  cases granted : a.access i with
  | error fault => simp [write, granted, bind, Except.bind] at wrote
  | ok s =>
    simp only [write, granted, bind, Except.bind, pure, Except.pure, Except.ok.injEq,
      Prod.mk.injEq] at wrote
    exact ⟨s, rfl, wrote.1.symm, wrote.2.symm⟩

theorem allocate_ok {count start : Nat} {tag : String} {after : Arena}
    (allocated : a.allocate count tag = .ok (start, after)) :
    a.place count = .ok start ∧ after = a.occupy start count tag := by
  cases placed : a.place count with
  | error fault => simp [allocate, placed, bind, Except.bind] at allocated
  | ok found =>
    simp only [allocate, placed, bind, Except.bind, pure, Except.pure, Except.ok.injEq,
      Prod.mk.injEq] at allocated
    obtain ⟨rfl, rfl⟩ := allocated
    exact ⟨rfl, rfl⟩

/-- A call changes nothing that adds nothing to the history. -/
theorem call_of_event?_none (a : Arena) (c : Call) (nothing : a.event? c = none) : a.call c = a := by
  rcases a.call_event_cases c with ⟨-, same⟩ | ⟨_, _, _, -, event, -⟩ | ⟨_, _, -, event, -⟩ | ⟨_, _, _, -, event, -⟩
  · exact same
  all_goals exact nomatch nothing.symm.trans event

end Inversion

/-- The answers of an arena of `size` slots are those that its history asks for. -/
structure Answers (size : Nat) (events : List Event) (a : Arena) : Prop where
  value (i : Nat) (v : Value) : a.read i = .ok v ↔
    ∃ b since, LiveSince events b since ∧ b.contains i = true ∧ lastWritten since i = some v
  uninitialized (i : Nat) : a.read i = .error (.uninitialized i) ↔
    ∃ b since, LiveSince events b since ∧ b.contains i = true ∧ lastWritten since i = none
  nullDereference (i : Nat) : a.read i = .error .nullDereference ↔ i = 0
  outOfBounds (i : Nat) : a.read i = .error (.outOfBounds i size) ↔ 0 < i ∧ size ≤ i
  notAllocated (i : Nat) : a.read i = .error (.notAllocated i) ↔
    0 < i ∧ i < size ∧ ¬∃ b since, LiveSince events b since ∧ b.contains i = true
  writable (i : Nat) (v : Value) : (∃ old after, a.write i v = .ok (old, after)) ↔
    ∃ b since, LiveSince events b since ∧ b.contains i = true
  /-- A write gives what was there before, and changes one slot, and nothing else. -/
  write {i : Nat} {v : Value} {old : Option Value} {after : Arena} : a.write i v = .ok (old, after) →
    (∀ b since, LiveSince events b since → b.contains i = true → old = lastWritten since i) ∧
      after.slot i = .holding v ∧ (∀ j, j ≠ i → after.slot j = a.slot j) ∧
      a.SameTable after
  /-- Nothing of what was there before is in a new block. -/
  fresh {count : Nat} {tag : String} {start : Nat} {after : Arena} : a.allocate count tag = .ok (start, after) →
    ∀ i, start ≤ i → i < start + count → after.read i = .error (.uninitialized i)
  /-- A call that is refused changes nothing, and neither does one that reads. -/
  refused (c : Call) : a.event? c = none → a.call c = a

theorem Chronicle.answers {events : List Event} {a : Arena} (h : Chronicle events a) :
    Answers a.size events a := by
  have nonzero {i : Nat} (taken : a.isAllocated i = true) : i ≠ 0 := by
    obtain ⟨b, member, inside⟩ := (h.layout.taken i).1 taken
    have low : 1024 ≤ b.start := h.layout.low b member
    have within := Block.contains_iff.1 inside
    omega
  have reads (i : Nat) (value : Option Value) (held : a.slot i = .mirror value) :
      a.read i = value.elim (.error (.uninitialized i)) .ok :=
    a.read_of_mirror i (nonzero (by rw [← isAllocated_slot, held, Slot.isAllocated_mirror])) held
  constructor
  case value =>
    intro i v
    rw [← h.slot_eq_mirror_iff]
    refine ⟨fun read => ?_, reads i (some v)⟩
    rw [read_eq] at read
    grind [Slot.mirror]
  case uninitialized =>
    intro i
    rw [← h.slot_eq_mirror_iff]
    refine ⟨fun read => ?_, reads i none⟩
    rw [read_eq] at read
    grind [Slot.mirror]
  case nullDereference =>
    intro i
    rw [read_eq]
    grind
  case outOfBounds =>
    intro i
    rw [read_eq]
    grind
  case notAllocated =>
    intro i
    rw [← h.isAllocated_iff, read_eq, ← isAllocated_slot]
    cases held : a.slot i <;> grind [Slot.isAllocated]
  case writable =>
    intro i v
    rw [← h.isAllocated_iff]
    constructor
    · rintro ⟨old, after, wrote⟩
      obtain ⟨s, granted, -⟩ := write_ok wrote
      exact (access_ok granted).2.2.2
    · intro taken
      refine ⟨(a.slot i).value?, a.put i v, ?_⟩
      simp [Arena.write, access_of_isAllocated (nonzero taken) taken, bind, Except.bind, pure, Except.pure]
  case write =>
    intro i v old after wrote
    obtain ⟨s, granted, rfl, rfl⟩ := write_ok wrote
    obtain ⟨-, -, held, taken⟩ := access_ok granted
    refine ⟨fun b since live here => ?_, ?_, fun j other => ?_, a.sameTable_put i v⟩
    · rw [← held, h.slot live here, Slot.value?_mirror]
    · rw [slot_put, if_pos ⟨rfl, taken⟩]
    · rw [slot_put, if_neg fun same => other same.1]
  case fresh =>
    intro count tag start after allocated i low high
    obtain ⟨placed, rfl⟩ := allocate_ok allocated
    obtain ⟨-, behind, room, -⟩ := place_ok placed
    have reserved : 1024 ≤ a.watermark := h.layout.watermark ▸ reserved_le_top a.blocks
    have blank : (a.occupy start count tag).slot i = .mirror none := by
      rw [slot_occupy, if_pos (by omega)]
      rfl
    exact read_of_mirror _ i (by omega) blank
  case refused => exact a.call_of_event?_none

end Arena

namespace Exec

variable {σ : Type}

/-- The step with which a machine makes a call on its arena. -/
def perform (line : Nat) : Arena.Call → Exec σ Unit
  | .allocate size tag => discard (allocate size tag line)
  | .free address => discard (release address line)
  | .read address => discard (readThrough address line)
  | .write address value => discard (writeArena address value line)

/-- A machine's arena is then as the call leaves it. A call that is refused leaves the machine as it is. -/
theorem perform_call (line : Nat) (c : Arena.Call) (m : Machine σ) :
    (final (perform line c m)).arena = m.arena.call c ∧ ∀ e m', perform line c m = .error e m' → m' = m := by
  cases c with
  | allocate size tag =>
    have step := allocate_eq size tag line m
    cases placed : m.arena.place size with
    | error fault =>
      rw [placed] at step
      rw [perform, discard_of_error step]
      simp [final, Arena.call, Arena.allocate, placed, bind, Except.bind]
    | ok start =>
      rw [placed] at step
      rw [perform, discard_of_ok step]
      simp [final, Arena.call, Arena.allocate, placed, bind, Except.bind, Pure.pure, Except.pure]
  | free address =>
    have step := release_eq address line m
    cases found : m.arena.freeable address with
    | error fault =>
      rw [found] at step
      rw [perform, discard_of_error step]
      simp [final, Arena.call, Arena.free, found, bind, Except.bind]
    | ok block =>
      rw [found] at step
      rw [perform, discard_of_ok step]
      simp [final, Arena.call, Arena.free, found, bind, Except.bind, Pure.pure, Except.pure]
  | read address =>
    cases read : m.arena.read address with
    | error fault =>
      have step : readThrough address line m = .error ⟨.memory fault, line⟩ m := by
        rw [readThrough, get_bind, read]
        rfl
      rw [perform, discard_of_error step]
      simp [final, Arena.call]
    | ok v =>
      have step : ∃ t, readThrough address line m = .ok v (m.withTrace t) := by
        rw [readThrough, get_bind, read]
        exact ⟨_, rfl⟩
      obtain ⟨t, step⟩ := step
      rw [perform, discard_of_ok step]
      simp [final, Arena.call, Machine.withTrace]
  | write address v =>
    have step := writeArena_eq address v line m
    cases granted : m.arena.access address with
    | error fault =>
      rw [granted] at step
      rw [perform, discard_of_error step]
      simp [final, Arena.call, Arena.write, granted, bind, Except.bind]
    | ok s =>
      rw [granted] at step
      rw [perform, discard_of_ok step]
      simp [final, Arena.call, Arena.write, granted, bind, Except.bind, Pure.pure, Except.pure]

end Exec

/-- Behind every sequence of calls on a new arena: an address reads as a value if and only if it lies in a
live block, and the value was last written there since the block was taken; it is uninitialized if nothing
was written there since, and no other reads succeed. Writes succeed at the same addresses, give what was
there before, and change one slot. A new block holds nothing. Calls that are refused change nothing; nor do
the steps with which a machine makes these calls. -/
theorem answers_after_calls (size : Nat) (calls : List Arena.Call) :
    let a := (Arena.empty size).after calls
    Arena.Answers size ((Arena.empty size).history calls) a ∧
      ∀ (σ : Type) (m : Machine σ) (line : Nat) (c : Arena.Call), m.arena = a →
        (Exec.final (Exec.perform line c m)).arena = a.call c ∧
          ∀ e m', Exec.perform line c m = .error e m' → m' = m := by
  intro a
  have told : Arena.Chronicle ((Arena.empty size).history calls) a := by
    simpa using (Arena.Chronicle.empty size).after calls
  have fixed : a.size = size := by
    rw [Arena.size_after, Arena.size, Arena.empty, Array.size_replicate]
  refine ⟨fixed ▸ told.answers, fun σ m line c same => ?_⟩
  rw [← same]
  exact Exec.perform_call line c m

end Pseudocode
