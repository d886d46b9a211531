import Pseudocode.Arena

/-!
What the operations of an arena do to its slots, its live blocks and its watermark, and the layout
that all of them keep: live blocks lie apart, a slot is taken exactly if a live block covers it, and
the watermark is the end of the highest block.
-/

namespace Pseudocode

namespace Block

/-- The blocks have no slot in common. -/
def Apart (b c : Block) : Prop := b.stop ≤ c.start ∨ c.stop ≤ b.start

theorem Apart.symm {b c : Block} (h : b.Apart c) : c.Apart b := Or.symm h

theorem contains_iff {b : Block} {i : Nat} : b.contains i = true ↔ b.start ≤ i ∧ i < b.stop := by
  simp [contains]

theorem Apart.not_contains {b c : Block} {i : Nat} (apart : b.Apart c) (inside : b.contains i = true) :
    ¬ c.contains i = true := by
  rw [contains_iff] at inside ⊢
  unfold Apart at apart
  omega

theorem contains_start {b : Block} (nonempty : 0 < b.size) : b.contains b.start = true := by
  rw [contains_iff, stop]
  omega

/-- Two members of a list of blocks that lie apart are equal or lie apart. -/
theorem apart_of_mem {blocks : List Block} (apart : blocks.Pairwise Apart) {b c : Block}
    (hb : b ∈ blocks) (hc : c ∈ blocks) (different : b ≠ c) : b.Apart c := by
  induction blocks with
  | nil => cases hb
  | cons head rest ih =>
    obtain ⟨first, others⟩ := List.pairwise_cons.mp apart
    rcases List.mem_cons.mp hb with rfl | inRest
    · rcases List.mem_cons.mp hc with rfl | inRest
      · exact absurd rfl different
      · exact first c inRest
    · rcases List.mem_cons.mp hc with rfl | inRest'
      · exact (first b inRest).symm
      · exact ih others inRest inRest'

end Block

namespace Arena

section Slots

theorem getD_setIfInBounds {α : Type} (entries : Array α) (x d : α) (i j : Nat) :
    (entries.setIfInBounds j x).getD i d = if i = j ∧ j < entries.size then x else entries.getD i d := by
  by_cases same : j = i
  · subst same
    by_cases inside : j < entries.size <;> simp [inside]
  · simp [same, Ne.symm same]

theorem getD_fill {α : Type} (entries : Array α) (x d : α) (start count i : Nat) :
    (fill entries x start count).getD i d =
      if start ≤ i ∧ i < start + count ∧ i < entries.size then x else entries.getD i d := by
  induction count generalizing entries start with
  | zero => rw [fill, if_neg (by omega)]
  | succ count ih =>
    rw [fill, ih, Array.size_setIfInBounds, getD_setIfInBounds]
    by_cases later : start + 1 ≤ i ∧ i < start + 1 + count ∧ i < entries.size
    · rw [if_pos later, if_pos (by omega)]
    · rw [if_neg later]
      by_cases first : i = start ∧ start < entries.size
      · rw [if_pos first, if_pos (by omega)]
      · rw [if_neg first, if_neg (by omega)]

/-- Behind the last entry all is as if it were filled, whether or not the filling reaches there. -/
theorem getD_fill_default {α : Type} (entries : Array α) (d : α) (start count i : Nat) :
    (fill entries d start count).getD i d = if start ≤ i ∧ i < start + count then d else entries.getD i d := by
  rw [getD_fill]
  by_cases inside : i < entries.size
  · by_cases within : start ≤ i ∧ i < start + count
    · rw [if_pos within, if_pos ⟨within.1, within.2, inside⟩]
    · rw [if_neg within, if_neg fun reached => within ⟨reached.1, reached.2.1⟩]
  · have none : entries.getD i d = d := by simp [Array.getElem?_eq_none (Nat.le_of_not_lt inside)]
    rw [none, ite_self, ite_self]

/-- Setting one flag changes the number of flags by what the flag was and what it becomes. -/
theorem count_setIfInBounds (flags : Array Bool) (flag : Bool) {i : Nat} (inside : i < flags.size) :
    (flags.setIfInBounds i flag).count true + (flags.getD i false).toNat = flags.count true + flag.toNat := by
  have old : flags.getD i false = flags[i] := by simp [inside]
  rw [old, Array.setIfInBounds, dif_pos inside, Array.count_set]
  cases taken : flags[i] with
  | false => cases flag <;> simp
  | true =>
    have positive : 0 < flags.count true := Array.count_pos_iff.mpr (taken ▸ Array.getElem_mem inside)
    cases flag <;> simp <;> omega

/-- Filling flags that are all set or all clear changes the number of flags by as many. -/
theorem count_fill (flags : Array Bool) (flag taken : Bool) (start count : Nat)
    (room : start + count ≤ flags.size)
    (same : ∀ i, start ≤ i → i < start + count → flags.getD i false = taken) :
    (fill flags flag start count).count true + count * taken.toNat =
      flags.count true + count * flag.toNat := by
  induction count generalizing flags start with
  | zero => simp [fill]
  | succ count ih =>
    have one := count_setIfInBounds flags flag (i := start) (by omega)
    have rest := ih (flags.setIfInBounds start flag) (start + 1) (by simpa using by omega)
      (fun i low high => by
        rw [getD_setIfInBounds, if_neg (by omega)]
        exact same i (by omega) (by omega))
    rw [same start (by omega) (by omega)] at one
    rw [fill, Nat.succ_mul, Nat.succ_mul]
    omega

theorem free_of_obstacle?_none {flags : Array Bool} {start count : Nat}
    (clear : obstacle? flags start count = none) :
    ∀ i, start ≤ i → i < start + count → flags.getD i false = false := by
  induction count generalizing start with
  | zero => intro i low high; omega
  | succ count ih =>
    intro i low high
    rw [obstacle?] at clear
    split at clear
    · cases clear
    · rename_i first
      by_cases equal : i = start
      · subst equal
        simpa using first
      · exact ih clear i (by omega) (by omega)

/-- A place found by the scan lies at or behind its start, in the arena, and is free. -/
theorem firstFit?_some {flags : Array Bool} {count start found : Nat}
    (fit : firstFit? flags count start = some found) :
    start ≤ found ∧ found + count ≤ flags.size ∧
      ∀ i, found ≤ i → i < found + count → flags.getD i false = false := by
  fun_induction firstFit? flags count start with
  | case1 start room clear =>
    cases fit
    exact ⟨Nat.le_refl _, room, free_of_obstacle?_none clear⟩
  | case2 start room blocker blocked inside ih =>
    obtain ⟨later, rest⟩ := ih fit
    have := le_of_obstacle? blocked
    exact ⟨by omega, rest⟩
  | case3 => cases fit
  | case4 => cases fit

end Slots

section Operations

variable {a : Arena}

@[simp] theorem size_occupy (start size : Nat) (tag : String) :
    (a.occupy start size tag).size = a.size := size_fill ..

@[simp] theorem size_vacate (block : Block) : (a.vacate block).size = a.size := size_fill ..

@[simp] theorem size_put (address : Nat) (v : Value) : (a.put address v).size = a.size :=
  Array.size_setIfInBounds ..

@[simp] theorem isAllocated_slot (i : Nat) : (a.slot i).isAllocated = a.isAllocated i := by
  unfold slot
  split
  · next taken => split <;> exact taken.symm
  · next free => exact (Bool.eq_false_iff.2 free).symm

theorem slot_of_free {i : Nat} (free : a.isAllocated i = false) : a.slot i = .unallocated := by
  rw [slot, free]
  rfl

theorem lt_size_of_isAllocated {i : Nat} (taken : a.isAllocated i = true) : i < a.size := by
  refine Nat.lt_of_not_le fun outside => ?_
  have none : a.allocated[i]? = none := Array.getElem?_eq_none (a.sized ▸ outside)
  simp [isAllocated, none] at taken

theorem isAllocated_occupy (start size : Nat) (tag : String) (i : Nat) :
    (a.occupy start size tag).isAllocated i =
      if start ≤ i ∧ i < start + size ∧ i < a.size then true else a.isAllocated i := by
  rw [Arena.size, ← a.sized]
  exact getD_fill ..

theorem peek?_occupy (start size : Nat) (tag : String) (i : Nat) :
    (a.occupy start size tag).peek? i =
      if start ≤ i ∧ i < start + size ∧ i < a.size then none else a.peek? i := getD_fill ..

theorem slot_occupy (start size : Nat) (tag : String) (i : Nat) :
    (a.occupy start size tag).slot i =
      if start ≤ i ∧ i < start + size ∧ i < a.size then .unwritten else a.slot i := by
  rw [slot, isAllocated_occupy, peek?_occupy]
  split <;> rfl

theorem isAllocated_vacate (block : Block) (i : Nat) :
    (a.vacate block).isAllocated i = if block.start ≤ i ∧ i < block.stop then false else a.isAllocated i :=
  getD_fill_default ..

theorem peek?_vacate (block : Block) (i : Nat) :
    (a.vacate block).peek? i = if block.start ≤ i ∧ i < block.stop then none else a.peek? i :=
  getD_fill_default ..

theorem slot_vacate (block : Block) (i : Nat) :
    (a.vacate block).slot i =
      if block.start ≤ i ∧ i < block.stop then .unallocated else a.slot i := by
  rw [slot, isAllocated_vacate, peek?_vacate]
  split <;> rfl

variable {address : Nat}

@[simp] theorem isAllocated_put (address : Nat) (v : Value) (i : Nat) :
    (a.put address v).isAllocated i = a.isAllocated i := rfl

theorem peek?_put (address : Nat) (v : Value) (i : Nat) :
    (a.put address v).peek? i = if i = address ∧ address < a.size then some v else a.peek? i :=
  getD_setIfInBounds ..

/-- A value that is put into a slot which is not taken does not show. -/
theorem slot_put (address : Nat) (v : Value) (i : Nat) :
    (a.put address v).slot i = if i = address ∧ a.isAllocated address = true then .holding v else a.slot i := by
  rw [slot, isAllocated_put, peek?_put]
  by_cases same : i = address
  · subst same
    cases taken : a.isAllocated i with
    | false => simp [slot_of_free taken]
    | true => simp [lt_size_of_isAllocated taken]
  · simp [same, slot]

/-- A place for a new block is not empty and free, and lies in the arena behind the watermark. -/
theorem place_ok {size start : Nat} (placed : a.place size = .ok start) :
    0 < size ∧ a.watermark ≤ start ∧ start + size ≤ a.size ∧
      ∀ i, start ≤ i → i < start + size → a.isAllocated i = false := by
  unfold place at placed
  split at placed
  · cases placed
  · rename_i positive
    cases fit : firstFit? a.allocated size a.watermark with
    | none => simp only [fit] at placed; cases placed
    | some found =>
      simp only [fit, Except.ok.injEq] at placed
      subst placed
      rw [Arena.size, ← a.sized]
      exact ⟨Nat.pos_of_ne_zero positive, firstFit?_some fit⟩

theorem freeable_ok {block : Block} (found : a.freeable address = .ok block) :
    block ∈ a.blocks ∧ block.start = address := by
  unfold freeable at found
  split at found
  · rename_i b hit
    cases found
    exact ⟨List.mem_of_find?_eq_some hit, by simpa using List.find?_some hit⟩
  · cases found

theorem access_ok {s : Slot} (granted : a.access address = .ok s) :
    address ≠ 0 ∧ address < a.size ∧ a.slot address = s ∧ a.isAllocated address = true := by
  unfold access at granted
  split at granted
  · cases granted
  · split at granted
    · cases granted
    · rename_i nonzero inside
      split at granted
      · cases granted
      · rename_i taken
        cases granted
        refine ⟨nonzero, Nat.lt_of_not_le inside, rfl, ?_⟩
        rw [← isAllocated_slot]
        cases held : a.slot address with
        | unallocated => exact absurd held taken
        | unwritten | holding v => rfl

/-- A taken slot may be used. -/
theorem access_of_isAllocated (nonzero : address ≠ 0) (taken : a.isAllocated address = true) :
    a.access address = .ok (a.slot address) := by
  rw [access, if_neg nonzero, if_neg (Nat.not_le.mpr (lt_size_of_isAllocated taken))]
  cases held : a.slot address with
  | unallocated => simp [← isAllocated_slot, held, Slot.isAllocated] at taken
  | unwritten | holding v => rfl

/-- Arenas that differ at most in what their slots hold. -/
structure SameTable (a b : Arena) : Prop where
  allocated : b.allocated = a.allocated
  blocks : b.blocks = a.blocks
  freed : b.freed = a.freed
  watermark : b.watermark = a.watermark

theorem sameTable_put (a : Arena) (address : Nat) (v : Value) : a.SameTable (a.put address v) := ⟨rfl, rfl, rfl, rfl⟩

end Operations

section Top

theorem foldl_max_stop (blocks : List Block) (x y : Nat) :
    blocks.foldl (fun high b => max high b.stop) (max x y) =
      max x (blocks.foldl (fun high b => max high b.stop) y) := by
  induction blocks generalizing y with
  | nil => rfl
  | cons b rest ih => rw [List.foldl_cons, List.foldl_cons, Nat.max_assoc, ih]

theorem top_append_cons (before behind : List Block) (b : Block) :
    top (before ++ b :: behind) = max b.stop (top (before ++ behind)) := by
  unfold top
  rw [List.foldl_append, List.foldl_append, List.foldl_cons, Nat.max_comm, foldl_max_stop]

theorem top_cons (b : Block) (blocks : List Block) : top (b :: blocks) = max b.stop (top blocks) :=
  top_append_cons [] blocks b

theorem sizes_append_cons (before behind : List Block) (b : Block) :
    ((before ++ b :: behind).map (·.size)).foldr (· + ·) 0 =
      b.size + ((before ++ behind).map (·.size)).foldr (· + ·) 0 := by
  induction before with
  | nil => rfl
  | cons c before ih =>
    simp only [List.cons_append, List.map_cons, List.foldr_cons, ih]
    omega

theorem reserved_le_top (blocks : List Block) : reservedAddresses ≤ top blocks := by
  induction blocks with
  | nil => exact Nat.le_refl _
  | cons b rest ih => rw [top_cons]; omega

theorem stop_le_top {blocks : List Block} {b : Block} (member : b ∈ blocks) : b.stop ≤ top blocks := by
  induction blocks with
  | nil => cases member
  | cons c rest ih =>
    rw [top_cons]
    rcases List.mem_cons.mp member with rfl | inRest
    · omega
    · have := ih inRest
      omega

/-- The end of the highest block is that of a block, unless there is none above the reserved
addresses. -/
theorem top_attained (blocks : List Block) :
    top blocks = reservedAddresses ∨ ∃ b ∈ blocks, b.stop = top blocks := by
  induction blocks with
  | nil => exact .inl rfl
  | cons b rest ih =>
    rw [top_cons]
    rcases Nat.le_total b.stop (top rest) with below | above
    · rw [Nat.max_eq_right below]
      exact ih.imp_right fun ⟨c, member, stop⟩ => ⟨c, List.mem_cons_of_mem _ member, stop⟩
    · rw [Nat.max_eq_left above]
      exact .inr ⟨b, List.mem_cons_self, rfl⟩

end Top

/-- The slots, the live blocks and the watermark of an arena tell the same story. -/
structure Layout (a : Arena) : Prop where
  nonempty : ∀ b ∈ a.blocks, 0 < b.size
  low : ∀ b ∈ a.blocks, reservedAddresses ≤ b.start
  high : ∀ b ∈ a.blocks, b.stop ≤ a.size
  apart : a.blocks.Pairwise Block.Apart
  taken : ∀ i, a.isAllocated i = true ↔ ∃ b ∈ a.blocks, b.contains i = true
  watermark : a.watermark = top a.blocks
  used : a.used = a.allocated.count true
  /-- What is not taken holds nothing. -/
  vacant : ∀ i, a.isAllocated i = false → a.peek? i = none

namespace Layout

variable {a : Arena} (layout : a.Layout)
include layout

variable {b : Block}

/-- Live blocks are told apart by their starts. -/
theorem eq_of_start {c : Block} (hb : b ∈ a.blocks) (hc : c ∈ a.blocks) (same : b.start = c.start) : b = c := by
  refine Classical.byContradiction fun different => ?_
  have apart := Block.apart_of_mem layout.apart hb hc different
  have hb := layout.nonempty b hb
  have hc := layout.nonempty c hc
  unfold Block.Apart Block.stop at apart
  omega

theorem eq_of_contains {c : Block} {i : Nat} (hb : b ∈ a.blocks) (hc : c ∈ a.blocks) (inside : b.contains i = true)
    (inside' : c.contains i = true) : b = c := by
  refine Classical.byContradiction fun different => ?_
  exact (Block.apart_of_mem layout.apart hb hc different).not_contains inside inside'

/-- The start of a live block finds the block. -/
theorem freeable_start (member : b ∈ a.blocks) : a.freeable b.start = .ok b := by
  unfold freeable
  cases hit : a.blocks.find? (·.start == b.start) with
  | none => simpa using List.find?_eq_none.mp hit b member
  | some c =>
    have same : c.start = b.start := by simpa using List.find?_some hit
    rw [layout.eq_of_start (List.mem_of_find?_eq_some hit) member same]

theorem occupy {size start : Nat} (placed : a.place size = .ok start) (tag : String) :
    (a.occupy start size tag).Layout := by
  obtain ⟨positive, behind, room, free⟩ := place_ok placed
  have below : ∀ b ∈ a.blocks, b.stop ≤ start := fun b member =>
    Nat.le_trans (stop_le_top member) (layout.watermark ▸ behind)
  refine ⟨?_, ?_, ?_, ?_, ?_, ?_, ?_, ?_⟩
  · intro b member
    rcases List.mem_cons.mp member with rfl | old
    · exact positive
    · exact layout.nonempty b old
  · intro b member
    rcases List.mem_cons.mp member with rfl | old
    · exact Nat.le_trans (reserved_le_top _) (layout.watermark ▸ behind)
    · exact layout.low b old
  · intro b member
    rw [size_occupy]
    rcases List.mem_cons.mp member with rfl | old
    · exact room
    · exact layout.high b old
  · exact List.pairwise_cons.mpr ⟨fun b old => .inr (below b old), layout.apart⟩
  · intro i
    have old := layout.taken i
    rw [isAllocated_occupy]
    by_cases new : start ≤ i ∧ i < start + size
    · simp only [new.1, new.2, show i < a.size by omega, and_self, ↓reduceIte, true_iff]
      exact ⟨_, List.mem_cons_self, Block.contains_iff.mpr new⟩
    · rw [if_neg (by omega), old]
      constructor
      · rintro ⟨b, member, inside⟩
        exact ⟨b, List.mem_cons_of_mem _ member, inside⟩
      · rintro ⟨b, member, inside⟩
        rcases List.mem_cons.mp member with rfl | member
        · exact absurd (Block.contains_iff.mp inside) new
        · exact ⟨b, member, inside⟩
  · have := layout.watermark
    show max a.watermark (start + size) = top (_ :: a.blocks)
    rw [top_cons, Nat.max_comm, this]
    rfl
  · have := layout.used
    have counted := count_fill a.allocated true false start size (a.sized ▸ room) free
    show size + a.used = (fill a.allocated true start size).count true
    simp only [Bool.toNat_false, Bool.toNat_true, Nat.mul_zero, Nat.mul_one] at counted
    omega
  · intro i vacant
    rw [isAllocated_occupy] at vacant
    rw [peek?_occupy]
    split at vacant
    · cases vacant
    · next old => rw [if_neg old, layout.vacant i vacant]

/-- A new block may be used. -/
theorem access_occupy {size start : Nat} (placed : a.place size = .ok start) (tag : String) :
    (a.occupy start size tag).access start = .ok .unwritten := by
  obtain ⟨positive, behind, room, -⟩ := place_ok placed
  have slot : (a.occupy start size tag).slot start = .unwritten := by
    rw [slot_occupy, if_pos (by omega)]
  have nonzero : start ≠ 0 := by
    have low : 1024 ≤ top a.blocks := reserved_le_top a.blocks
    rw [layout.watermark] at behind
    omega
  rw [access_of_isAllocated nonzero (by rw [← isAllocated_slot, slot]; rfl), slot]

/-- The list of live blocks around one of them. -/
theorem around (member : b ∈ a.blocks) :
    ∃ before behind, a.blocks = before ++ b :: behind ∧
      a.blocks.eraseP (·.start == b.start) = before ++ behind := by
  obtain ⟨c, before, behind, -, same, whole, rest⟩ :=
    List.exists_of_eraseP (p := (·.start == b.start)) member (by simp)
  have inside : c ∈ a.blocks := by rw [whole]; simp
  have equal : c = b := layout.eq_of_start inside member (by simpa using same)
  exact ⟨before, behind, equal ▸ whole, rest⟩

/-- Freeing a block below others leaves the highest end where it is. -/
theorem watermark_vacate (member : b ∈ a.blocks) : (a.vacate b).watermark = top (a.vacate b).blocks := by
  obtain ⟨before, behind, whole, rest⟩ := layout.around member
  have split : a.watermark = max b.stop (top (before ++ behind)) := by
    rw [layout.watermark, whole, top_append_cons]
  simp only [vacate, rest]
  cases lower : (before ++ behind).all (·.start < b.start) with
  | true => rfl
  | false =>
    -- Some other block starts above the freed one, so it also ends above it.
    obtain ⟨c, inRest, above⟩ := List.all_eq_false.mp lower
    have old : c ∈ a.blocks := by
      rw [whole]
      rcases List.mem_append.mp inRest with h | h <;> simp [h]
    have apart := layout.apart
    rw [whole, List.pairwise_append, List.pairwise_cons] at apart
    have clear : c.Apart b := by
      rcases List.mem_append.mp inRest with h | h
      · exact apart.2.2 c h b List.mem_cons_self
      · exact (apart.2.1.1 c h).symm
    have reach := stop_le_top inRest
    have hb := layout.nonempty b member
    have hc := layout.nonempty c old
    simp only [decide_eq_true_eq] at above
    unfold Block.Apart at clear
    unfold Block.stop at clear reach split
    simp only [Bool.false_eq_true, ↓reduceIte]
    omega

theorem vacate (member : b ∈ a.blocks) : (a.vacate b).Layout := by
  obtain ⟨before, behind, whole, rest⟩ := layout.around member
  have blocks : (a.vacate b).blocks = before ++ behind := rest
  have apart := layout.apart
  rw [whole, List.pairwise_append, List.pairwise_cons] at apart
  have kept : ∀ c ∈ before ++ behind, c ∈ a.blocks ∧ c.Apart b := by
    intro c inRest
    rw [whole]
    rcases List.mem_append.mp inRest with h | h
    · exact ⟨by simp [h], apart.2.2 c h b List.mem_cons_self⟩
    · exact ⟨by simp [h], (apart.2.1.1 c h).symm⟩
  refine ⟨?_, ?_, ?_, ?_, ?_, layout.watermark_vacate member, ?_, ?_⟩
  · rw [blocks]
    exact fun c inRest => layout.nonempty c (kept c inRest).1
  · rw [blocks]
    exact fun c inRest => layout.low c (kept c inRest).1
  · rw [blocks, size_vacate]
    exact fun c inRest => layout.high c (kept c inRest).1
  · rw [blocks, List.pairwise_append]
    exact ⟨apart.1, apart.2.1.2, fun c hc d hd => apart.2.2 c hc d (List.mem_cons_of_mem _ hd)⟩
  · intro i
    have old := layout.taken i
    rw [blocks, isAllocated_vacate]
    by_cases freed : b.start ≤ i ∧ i < b.stop
    · rw [if_pos freed]
      simp only [Bool.false_eq_true, false_iff]
      rintro ⟨c, inRest, inside⟩
      exact (kept c inRest).2.not_contains inside (Block.contains_iff.mpr freed)
    · rw [if_neg freed, old, whole]
      constructor
      · rintro ⟨c, hc, inside⟩
        refine ⟨c, ?_, inside⟩
        simp only [List.mem_append, List.mem_cons] at hc ⊢
        rcases hc with h | rfl | h
        · exact .inl h
        · exact absurd (Block.contains_iff.mp inside) freed
        · exact .inr h
      · rintro ⟨c, hc, inside⟩
        refine ⟨c, ?_, inside⟩
        simp only [List.mem_append, List.mem_cons] at hc ⊢
        exact hc.imp_right .inr
  · have taken : ∀ i, b.start ≤ i → i < b.start + b.size → a.isAllocated i = true :=
      fun i low high => (layout.taken i).mpr ⟨b, member, Block.contains_iff.mpr ⟨low, high⟩⟩
    have counted := count_fill a.allocated false true b.start b.size (a.sized ▸ layout.high b member) taken
    simp only [Bool.toNat_false, Bool.toNat_true, Nat.mul_zero, Nat.mul_one] at counted
    have total : a.used = b.size + (a.vacate b).used := by
      rw [Arena.used, Arena.used, blocks, whole]
      exact sizes_append_cons before behind b
    have := layout.used
    show (a.vacate b).used = (fill a.allocated false b.start b.size).count true
    omega
  · intro i vacant
    rw [isAllocated_vacate] at vacant
    rw [peek?_vacate]
    split at vacant
    · next freed => rw [if_pos freed]
    · next kept => rw [if_neg kept, layout.vacant i vacant]

/-- Only the block that is given back goes. -/
theorem mem_vacate (member : b ∈ a.blocks) (c : Block) :
    c ∈ (a.vacate b).blocks ↔ c ∈ a.blocks ∧ c.start ≠ b.start := by
  constructor
  · intro kept
    refine ⟨List.mem_of_mem_eraseP kept, fun same => ?_⟩
    have after := layout.vacate member
    have start := Block.contains_start (after.nonempty c kept)
    have taken := (after.taken c.start).2 ⟨c, kept, start⟩
    have inside := Block.contains_iff.1 (Block.contains_start (layout.nonempty b member))
    rw [isAllocated_vacate, same, if_pos inside] at taken
    cases taken
  · rintro ⟨old, other⟩
    exact (List.mem_eraseP_of_neg (by simpa using other)).2 old

theorem put {address : Nat} (taken : a.isAllocated address = true) (v : Value) :
    (a.put address v).Layout := by
  refine ⟨layout.nonempty, layout.low, ?_, layout.apart, layout.taken, layout.watermark, layout.used, ?_⟩
  · rw [size_put]
    exact layout.high
  · intro i vacant
    rw [peek?_put, if_neg, layout.vacant i vacant]
    rintro ⟨rfl, -⟩
    exact absurd (taken.symm.trans vacant) nofun

end Layout

end Arena

end Pseudocode
