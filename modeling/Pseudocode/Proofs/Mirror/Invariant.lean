import Pseudocode.Proofs.Arena.Layout
import Pseudocode.Proofs.Entries
import Pseudocode.Scopes

/-!
Variables and their copies in the arena. A variable that has an address owns the block that starts
there, and the first slot of the block is as the variable is: it holds the variable's value, or nothing
while the variable has none. `Mirror` relates all cells, the arena and the table of bound addresses;
the lemmas below say how it survives the changes that steps make to the three.
-/

namespace Pseudocode

/-- The slot for what a variable holds. -/
def Slot.mirror : Option Value → Slot
  | none => .unwritten
  | some v => .holding v

@[simp] theorem Slot.isAllocated_mirror (value : Option Value) : (mirror value).isAllocated = true := by
  cases value <;> rfl

namespace Variable

/-- Only an array holds an array, and no array has an address. -/
structure Plain (v : Variable) : Prop where
  array : ∀ g, v.value = some (.array g) → v.type.isArray = true
  scalar : ∀ a, v.address = some a → v.type.isArray = false

/-- The block at an address is that of a variable, and its first slot is as the variable. -/
structure MirroredAt (v : Variable) (arena : Arena) (a : Nat) : Prop where
  block : ⟨a, v.type.size, v.type.render⟩ ∈ arena.blocks
  slot : arena.slot a = .mirror v.value

namespace MirroredAt

variable {v : Variable} {arena : Arena} {a : Nat} (h : v.MirroredAt arena a)
include h

theorem isAllocated : arena.isAllocated a = true := by
  rw [← Arena.isAllocated_slot, h.slot, Slot.isAllocated_mirror]

theorem access (layout : arena.Layout) : arena.access a = .ok (.mirror v.value) := by
  have low : 1024 ≤ a := layout.low _ h.block
  have nonzero : a ≠ 0 := by omega
  rw [Arena.access_of_isAllocated nonzero h.isAllocated, h.slot]

theorem occupy {size start : Nat} (placed : arena.place size = .ok start) (tag : String) :
    v.MirroredAt (arena.occupy start size tag) a := by
  obtain ⟨-, -, -, free⟩ := Arena.place_ok placed
  refine ⟨List.mem_cons_of_mem _ h.block, ?_⟩
  rw [Arena.slot_occupy, if_neg, h.slot]
  rintro ⟨low, high, -⟩
  exact absurd h.isAllocated (by simp [free a low high])

theorem put {b : Nat} (other : a ≠ b) (x : Value) : v.MirroredAt (arena.put b x) a := by
  refine ⟨h.block, ?_⟩
  rw [Arena.slot_put, if_neg fun same => other same.1, h.slot]

theorem vacate (layout : arena.Layout) {block : Block} (member : block ∈ arena.blocks)
    (other : a ≠ block.start) : v.MirroredAt (arena.vacate block) a := by
  refine ⟨(List.mem_eraseP_of_neg (by simpa using other)).2 h.block, ?_⟩
  rw [Arena.slot_vacate, if_neg, h.slot]
  intro inside
  have start := Block.contains_start (layout.nonempty _ h.block)
  have same := layout.eq_of_contains h.block member start (Block.contains_iff.2 inside)
  exact other (congrArg Block.start same)

end MirroredAt

end Variable

/-- `bound` tells of which cells the variables have which addresses, and each of them is mirrored. -/
structure Mirror (cells : Array Variable) (arena : Arena) (bound : List (Nat × CellId)) : Prop where
  layout : arena.Layout
  bound (a : Nat) (c : CellId) : bound.lookup a = some c ↔ ∃ v, cells[c]? = some v ∧ v.address = some a
  mirrored {c : CellId} {v : Variable} {a : Nat} :
    cells[c]? = some v → v.address = some a → v.MirroredAt arena a
  plain {c : CellId} {v : Variable} : cells[c]? = some v → v.Plain

namespace Mirror

theorem empty (size : Nat) (layout : (Arena.empty size).Layout) : Mirror #[] (.empty size) [] where
  layout := layout
  bound := by simp
  mirrored := by simp
  plain := by simp

variable {cells : Array Variable} {arena : Arena} {bound : List (Nat × CellId)}
  (h : Mirror cells arena bound)
include h

variable {a : Nat} {c : CellId} {v : Variable}

theorem lookup_of_address (there : cells[c]? = some v) (address : v.address = some a) : bound.lookup a = some c :=
  (h.bound a c).2 ⟨v, there, address⟩

/-- No two variables have the same address. -/
theorem cell_unique {d : CellId} {w : Variable} (hv : cells[c]? = some v) (hw : cells[d]? = some w)
    (va : v.address = some a) (wa : w.address = some a) : c = d := by
  have := h.lookup_of_address hv va
  rw [h.lookup_of_address hw wa] at this
  exact (Option.some.inj this).symm

/-- The arena may change where no variable is mirrored. -/
theorem change_arena {arena' : Arena} (layout : arena'.Layout)
    (keeps : ∀ (c : CellId) (v : Variable) (a : Nat), cells[c]? = some v → v.address = some a →
      v.MirroredAt arena' a) :
    Mirror cells arena' bound :=
  ⟨layout, h.bound, fun there address => keeps _ _ _ there address, h.plain⟩

/-- One variable may change with its mirror and its entry, if the others keep theirs. -/
theorem change_cell (there : cells[c]? = some v) (f : Variable → Variable) {arena' : Arena}
    {bound' : List (Nat × CellId)} (layout : arena'.Layout)
    (keys : ∀ a d, bound'.lookup a = some d ↔ if d = c then (f v).address = some a else bound.lookup a = some d)
    (others : ∀ (d : CellId) (w : Variable) (a : Nat), d ≠ c → cells[d]? = some w → w.address = some a →
      w.MirroredAt arena' a) (own : ∀ a, (f v).address = some a → (f v).MirroredAt arena' a) (plain : (f v).Plain) :
    Mirror (cells.modify c f) arena' bound' := by
  have cell (d : CellId) : (cells.modify c f)[d]? = if d = c then some (f v) else cells[d]? := by
    rw [Array.getElem?_modify]
    by_cases same : d = c
    · subst same
      simp [there]
    · simp [same, Ne.symm same]
  refine ⟨layout, fun a d => ?_, fun {d w a} => ?_, fun {d w} => ?_⟩
  · rw [keys, cell]
    split
    · simp
    · exact h.bound a d
  · rw [cell]
    split
    · rintro ⟨⟩ address
      exact own a address
    · exact others d w a ‹_›
  · rw [cell]
    split
    · rintro ⟨⟩
      exact plain
    · exact h.plain

/-- A new variable without an address. -/
theorem push (address : v.address = none) (plain : v.Plain) : Mirror (cells.push v) arena bound := by
  have cell {c : CellId} {w : Variable} (there : (cells.push v)[c]? = some w) : cells[c]? = some w ∨ w = v := by
    rw [Array.getElem?_push] at there
    split at there
    · exact .inr (Option.some.inj there).symm
    · exact .inl there
  refine ⟨h.layout, fun a c => ?_, fun {c w a} there placed => ?_, fun {c w} there => ?_⟩
  · rw [h.bound]
    constructor
    · rintro ⟨w, there, placed⟩
      obtain ⟨inside, -⟩ := Array.getElem?_eq_some_iff.1 there
      exact ⟨w, by rw [Array.getElem?_push, if_neg (Nat.ne_of_lt inside), there], placed⟩
    · rintro ⟨w, there, placed⟩
      rcases cell there with there | rfl
      · exact ⟨w, there, placed⟩
      · simp [address] at placed
  · rcases cell there with there | rfl
    · exact h.mirrored there placed
    · simp [address] at placed
  · rcases cell there with there | rfl
    · exact h.plain there
    · exact plain

/-- A bound address is that of a taken slot. -/
theorem isAllocated_of_lookup (key : bound.lookup a = some c) : arena.isAllocated a = true := by
  obtain ⟨v, there, address⟩ := (h.bound a c).1 key
  exact (h.mirrored there address).isAllocated

theorem ne_of_unbound {b : Nat} (there : cells[c]? = some v) (address : v.address = some a)
    (unbound : bound.lookup b = none) : a ≠ b := by
  rintro rfl
  rw [h.lookup_of_address there address] at unbound
  cases unbound

theorem occupy {size start : Nat} (placed : arena.place size = .ok start) (tag : String) :
    Mirror cells (arena.occupy start size tag) bound :=
  h.change_arena (h.layout.occupy placed tag) fun _ _ _ there address =>
    (h.mirrored there address).occupy placed tag

theorem put_unbound {b : Nat} (taken : arena.isAllocated b = true) (unbound : bound.lookup b = none)
    (x : Value) : Mirror cells (arena.put b x) bound :=
  h.change_arena (h.layout.put taken x) fun _ _ _ there address =>
    (h.mirrored there address).put (h.ne_of_unbound there address unbound) x

theorem vacate_unbound {block : Block} (member : block ∈ arena.blocks)
    (unbound : bound.lookup block.start = none) : Mirror cells (arena.vacate block) bound :=
  h.change_arena (h.layout.vacate member) fun _ _ _ there address =>
    (h.mirrored there address).vacate h.layout member (h.ne_of_unbound there address unbound)

section Cell

variable {c : CellId} {v : Variable} (there : cells[c]? = some v)
include there

/-- A variable without an address may change as it likes. -/
theorem change_unbound (free : v.address = none) (f : Variable → Variable) (still : (f v).address = none)
    (plain : (f v).Plain) : Mirror (cells.modify c f) arena bound := by
  refine h.change_cell there f h.layout (fun a d => ?_) (fun d w a _ => h.mirrored) ?_ plain
  · split
    case isTrue same =>
      subst same
      rw [h.bound, there, still]
      simp [free]
    case isFalse => rfl
  · simp [still]

/-- A variable and its mirror are written together. -/
theorem write {a : Nat} (address : v.address = some a) {x : Value} (scalar : x.isArray = false) :
    Mirror (cells.modify c fun v => { v with value := some x }) (arena.put a x) bound := by
  have old := h.mirrored there address
  refine h.change_cell there _ (h.layout.put old.isAllocated x) (fun b d => ?_) ?_ ?_ ?_
  · split
    case isTrue same =>
      subst same
      rw [h.bound, there]
      simp
    case isFalse => rfl
  · intro d w b different that placed
    refine (h.mirrored that placed).put ?_ x
    rintro rfl
    exact different (h.cell_unique that there placed address)
  · rintro b placed
    cases address.symm.trans placed
    refine ⟨old.block, ?_⟩
    rw [Arena.slot_put, if_pos ⟨rfl, old.isAllocated⟩]
    rfl
  · refine ⟨?_, fun b placed => (h.plain there).scalar b placed⟩
    rintro g ⟨⟩
    cases scalar

/-- A variable gets a block, and the block its value. -/
theorem bind {a : Nat} (free : v.address = none) (scalar : v.type.isArray = false)
    (placed : arena.place v.type.size = .ok a) :
    Mirror (cells.modify c fun v => { v with address := some a })
      (v.value.elim (arena.occupy a v.type.size v.type.render)
        ((arena.occupy a v.type.size v.type.render).put a))
      ((a, c) :: bound) := by
  obtain ⟨positive, -, -, unused⟩ := Arena.place_ok placed
  have vacant : arena.isAllocated a = false := unused a (Nat.le_refl a) (by omega)
  have unbound (d : CellId) : bound.lookup a ≠ some d := by
    intro key
    rw [h.isAllocated_of_lookup key] at vacant
    cases vacant
  obtain ⟨-, -, slot, taken⟩ := Arena.access_ok (h.layout.access_occupy placed v.type.render)
  have layout := h.layout.occupy placed v.type.render
  refine h.change_cell there _ ?_ (fun b d => ?_) ?_ ?_ ?_
  · cases v.value with
    | none => exact layout
    | some x => exact layout.put taken x
  · have key : bound.lookup b ≠ some c := by
      rw [Ne, h.bound, there]
      simp [free]
    rw [lookup_cons]
    by_cases same : b = a
    · subst same
      by_cases own : d = c
      · simp [own]
      · simp [own, Ne.symm own, unbound d]
    · by_cases own : d = c
      · subst own
        simp [same, Ne.symm same, key]
      · simp [same, own]
  · intro d w b different that address
    have kept := (h.mirrored that address).occupy placed v.type.render
    have other : b ≠ a := by
      rintro rfl
      exact unbound d (h.lookup_of_address that address)
    cases v.value with
    | none => exact kept
    | some x => exact kept.put other x
  · rintro b ⟨⟩
    cases held : v.value with
    | none => exact ⟨List.mem_cons_self, slot⟩
    | some x =>
      refine ⟨List.mem_cons_self, ?_⟩
      show ((arena.occupy a v.type.size v.type.render).put a x).slot a = _
      rw [Arena.slot_put, if_pos ⟨rfl, taken⟩]
      rfl
  · exact ⟨(h.plain there).array, fun _ _ => scalar⟩

/-- A variable ends: its value, its block and its entry go. -/
theorem unbind {a : Nat} (address : v.address = some a) :
    Mirror (cells.modify c fun v => { v with value := none, address := none })
      (arena.vacate ⟨a, v.type.size, v.type.render⟩) (bound.filter (·.1 != a)) := by
  have old := h.mirrored there address
  refine h.change_cell there _ (h.layout.vacate old.block) (fun b d => ?_) ?_ ?_ ?_
  · have key : bound.lookup b = some c ↔ b = a := by
      rw [h.bound, there]
      simp [address, eq_comm]
    rw [lookup_filter_ne]
    by_cases own : d = c
    · subst own
      by_cases same : b = a
      · simp [same]
      · simp [same, key]
    · by_cases same : b = a
      · simp [same, own, h.lookup_of_address there address, Ne.symm own]
      · simp [same, own]
  · intro d w b different that placed
    refine (h.mirrored that placed).vacate h.layout old.block ?_
    rintro rfl
    exact different (h.cell_unique that there placed address)
  · rintro b ⟨⟩
  · exact ⟨fun _ => nofun, fun _ => nofun⟩

end Cell

end Mirror

end Pseudocode
