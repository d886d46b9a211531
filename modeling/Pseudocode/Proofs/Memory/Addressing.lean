import Pseudocode.Proofs.Memory.Atomicity
import Mathlib.Data.List.Forall2
import Mathlib.Data.List.Lex
import Mathlib.Algebra.BigOperators.Group.List.Lemmas
import Mathlib.Algebra.Order.BigOperators.Group.List

/-!
The addressing of arrays. The position of an index tuple is the number of tuples before it in lexicographic
order (`offset`), so the tuples within the bounds of an array and its cells correspond one to one
(`Grid.RowMajor`), and what is stored under one tuple is not seen under another. The bound on the number of cells
keeps every intermediate result within a machine word, wherever the bounds of the dimensions lie.
-/

namespace Pseudocode

open Exec

variable {σ : Type} {α : Type} {g : Grid Value} {dims : List Bounds}

theorem Bounds.one_le_prod {f : Bounds → Nat} (wide : ∀ b ∈ dims, 1 ≤ f b) : 1 ≤ (dims.map f).prod := by
  refine List.one_le_prod_of_one_le fun n member => ?_
  obtain ⟨b, there, rfl⟩ := List.mem_map.1 member
  exact wide b there

namespace Grid

/-- There is an index for each dimension, and it is within its bounds. -/
abbrev Within (indices : List Int) (dims : List Bounds) : Prop :=
  List.Forall₂ (fun index b => b.contains index = true) indices dims

/-- An index counts for as many cells as the later dimensions have. -/
def offset : List Int → List Bounds → Nat
  | index :: indices, b :: dims =>
    (index - b.lower).toNat * (dims.map Bounds.length).prod + offset indices dims
  | _, _ => 0

variable {indices : List Int} {b : Bounds} {dims : List Bounds}

theorem positionFrom_eq_ok_iff (start : Nat) {i : Nat} (rank : indices.length = dims.length) :
    positionFrom start indices dims = .ok i ↔
      Within indices dims ∧ i = start * (dims.map Bounds.length).prod + offset indices dims := by
  induction indices generalizing start dims with
  | nil =>
    obtain rfl : dims = [] := List.length_eq_zero_iff.1 rank.symm
    simp [positionFrom, offset, eq_comm]
  | cons index indices ih =>
    cases dims with
    | nil => cases rank
    | cons b dims =>
      rw [positionFrom, Within, List.forall₂_cons]
      by_cases within : b.contains index = true
      · rw [if_pos within, ih _ (Nat.succ.inj rank), offset, List.map_cons, List.prod_cons, Nat.add_mul,
          Nat.mul_assoc, Nat.add_assoc]
        exact (and_congr_left' (and_iff_right within)).symm
      · rw [if_neg within]
        exact ⟨fun h => (by cases h), fun h => absurd h.1.1 within⟩

/-- The first index outside its bounds is reported. -/
theorem positionFrom_eq_error_iff {start : Nat} {fault : IndexFault} :
    positionFrom start indices dims = .error fault ↔
      (indices.zip dims).find? (fun p => !p.2.contains p.1) = some (fault.index, fault.bounds) := by
  induction indices generalizing start dims with
  | nil => simp [positionFrom]
  | cons index indices ih =>
    cases dims with
    | nil => simp [positionFrom]
    | cons b dims =>
      rw [positionFrom, List.zip_cons_cons, List.find?_cons]
      cases within : b.contains index with
      | true => simpa using ih
      | false =>
        obtain ⟨i, c⟩ := fault
        simp

theorem Within.forall_mem_zip (rank : indices.length = dims.length) :
    Within indices dims ↔ ∀ p ∈ indices.zip dims, p.2.lower ≤ p.1 ∧ p.1 ≤ p.2.upper := by
  rw [Within, List.forall₂_iff_zip]
  simp only [Bounds.contains, Bool.and_eq_true, decide_eq_true_eq]
  exact ⟨fun h _ member => h.2 member, fun h => ⟨rank, h _⟩⟩

theorem offset_lt {xs : List Int} (small : (dims.map Bounds.length).prod < wordMax) (within : Within xs dims) :
    offset xs dims < (dims.map Bounds.length).prod := by
  have found := (positionFrom_eq_ok_iff 0 within.length_eq).2 ⟨within, rfl⟩
  have inside := positionFrom_lt found within.length_eq small Nat.one_pos
  rwa [Nat.zero_mul, Nat.zero_add, Nat.one_mul] at inside

theorem small_tail {index : Int} (within : b.contains index = true)
    (small : ((b :: dims).map Bounds.length).prod < wordMax) : (dims.map Bounds.length).prod < wordMax := by
  rw [List.map_cons, List.prod_cons] at small
  exact Nat.lt_of_le_of_lt (Nat.le_mul_of_pos_left _ (one_le_length within)) small

/-- Two numbers of two digits each, in a base above the last digits. -/
theorem digits_lt_iff {base a b c d : Nat} (hc : c < base) (hd : d < base) :
    a * base + c < b * base + d ↔ a < b ∨ a = b ∧ c < d := by
  rcases Nat.lt_trichotomy a b with less | rfl | more
  · have : (a + 1) * base ≤ b * base := Nat.mul_le_mul_right _ less
    rw [Nat.add_one_mul] at this
    omega
  · omega
  · have : (b + 1) * base ≤ a * base := Nat.mul_le_mul_right _ more
    rw [Nat.add_one_mul] at this
    omega

theorem offset_lt_iff {xs ys : List Int} (small : (dims.map Bounds.length).prod < wordMax) (hx : Within xs dims)
    (hy : Within ys dims) : offset xs dims < offset ys dims ↔ xs < ys := by
  induction hx generalizing ys with
  | nil =>
    cases hy
    simp [offset]
  | @cons x b xs dims inside hx ih =>
    obtain _ | ⟨inside', hy⟩ := hy
    rename_i y ys
    have tail := small_tail inside small
    rw [offset, offset, digits_lt_iff (offset_lt tail hx) (offset_lt tail hy), ih tail hy, List.cons_lt_cons_iff]
    simp only [Bounds.contains, Bool.and_eq_true, decide_eq_true_eq] at inside inside'
    refine or_congr ?_ (and_congr_left' ?_) <;> omega

theorem contains_of_lt {n : Nat} (less : n < b.length) : b.contains (b.lower + n) = true := by
  simp only [Bounds.contains, Bool.and_eq_true, decide_eq_true_eq]
  unfold Bounds.length Bounds.width at less
  omega

theorem exists_offset_eq {i : Nat} (inside : i < (dims.map Bounds.length).prod) :
    ∃ xs, Within xs dims ∧ offset xs dims = i := by
  induction dims generalizing i with
  | nil =>
    simp only [List.map_nil, List.prod_nil, Nat.lt_one_iff] at inside
    exact ⟨[], .nil, inside.symm⟩
  | cons b dims ih =>
    rw [List.map_cons, List.prod_cons] at inside
    have some_cells : 0 < (dims.map Bounds.length).prod := by
      by_contra none
      simp [Nat.eq_zero_of_not_pos none] at inside
    obtain ⟨xs, within, there⟩ := ih (Nat.mod_lt i some_cells)
    have digit : i / (dims.map Bounds.length).prod < b.length := (Nat.div_lt_iff_lt_mul some_cells).2 inside
    refine ⟨(b.lower + (i / (dims.map Bounds.length).prod : Nat)) :: xs, .cons ?_ within, ?_⟩
    · exact contains_of_lt digit
    · rw [offset, there, add_sub_cancel_left, Int.toNat_natCast]
      exact Nat.div_add_mod' i _

/-- A difference as a signed 64-bit word, if it is one. -/
def signedWord? (n : Int) : Option Int := if -(2 ^ 63) ≤ n ∧ n < 2 ^ 63 then some n else none

/-- A number as a 64-bit word, if it is one. -/
def word? (n : Nat) : Option Nat := if n ≤ wordMax then some n else none

/-- The position of an index tuple, with all arithmetic in 64-bit words: none if a result does not fit. -/
def wordPositionFrom (start : Nat) : List Int → List Bounds → Option (Except IndexFault Nat)
  | index :: indices, b :: dims =>
    if b.contains index then do
      let row ← word? (start * b.length)
      let distance ← signedWord? (index - b.lower)
      let next ← word? (row + distance.toNat)
      wordPositionFrom next indices dims
    else some (.error ⟨index, b⟩)
  | _, _ => some (.ok start)

theorem distance_lt {index : Int} (within : b.contains index = true) (fits : b.length < wordMax) :
    0 ≤ index - b.lower ∧ (index - b.lower).toNat < b.length := by
  simp only [Bounds.contains, Bool.and_eq_true, decide_eq_true_eq] at within
  unfold Bounds.length Bounds.width at fits ⊢
  omega

-- By induction on the dimensions; there are `bound` positions for the indices read so far, and every result on
-- the way is at most the number of cells.
theorem wordPositionFrom_eq {start bound : Nat} (indices : List Int) (wide : ∀ b ∈ dims, 1 ≤ b.length)
    (few : bound * (dims.map Bounds.length).prod ≤ maxCells) (inside : start < bound) :
    wordPositionFrom start indices dims = some (positionFrom start indices dims) := by
  induction indices generalizing start bound dims with
  | nil => rfl
  | cons index indices ih =>
    cases dims with
    | nil => rfl
    | cons b dims =>
      rw [wordPositionFrom, positionFrom]
      split
      · rename_i within
        rw [List.map_cons, List.prod_cons, ← Nat.mul_assoc] at few
        have rest := Bounds.one_le_prod fun d member => wide d (List.mem_cons_of_mem b member)
        have row : bound * b.length ≤ maxCells := Nat.le_trans (Nat.le_mul_of_pos_right _ rest) few
        have length : b.length ≤ maxCells := Nat.le_trans (Nat.le_mul_of_pos_left _ (by omega)) row
        have distance := distance_lt within (Nat.lt_of_le_of_lt length (by decide))
        have next : start * b.length + (index - b.lower).toNat < bound * b.length := by
          have := Nat.mul_le_mul_right b.length inside
          rw [Nat.succ_mul] at this
          omega
        have fits : maxCells ≤ wordMax := by decide
        have first : word? (start * b.length) = some (start * b.length) := if_pos (by omega)
        have second : signedWord? (index - b.lower) = some (index - b.lower) := by
          unfold maxCells at length
          exact if_pos (by omega)
        have third : word? (start * b.length + (index - b.lower).toNat) =
            some (start * b.length + (index - b.lower).toNat) := if_pos (by omega)
        simp only [first, second, third, Option.bind_eq_bind, Option.bind_some]
        exact ih (fun d member => wide d (List.mem_cons_of_mem b member)) few next
      · rfl

/-- Index tuples stand for the cells of a grid, one each and in lexicographic order. -/
structure RowMajor (g : Grid α) : Prop where
  /-- A tuple has a position if its indices are within their bounds. -/
  located {xs : List Int} : xs.length = g.dims.length →
    ((∃ i, g.position xs = .ok i) ↔ ∀ p ∈ xs.zip g.dims, p.2.lower ≤ p.1 ∧ p.1 ≤ p.2.upper)
  /-- If not, it is the first that is not within its bounds that is reported. -/
  refused {xs : List Int} {fault : IndexFault} : g.position xs = .error fault ↔
    (xs.zip g.dims).find? (fun p => !p.2.contains p.1) = some (fault.index, fault.bounds)
  /-- Positions are those of cells. -/
  inside {xs : List Int} {i : Nat} : xs.length = g.dims.length → g.position xs = .ok i → i < g.size
  /-- Every cell has one index tuple. -/
  bijective {i : Nat} : i < g.size → ∃! xs, xs.length = g.dims.length ∧ g.position xs = .ok i
  increasing {xs ys : List Int} {i j : Nat} : xs.length = g.dims.length → ys.length = g.dims.length →
    g.position xs = .ok i → g.position ys = .ok j → (i < j ↔ xs < ys)

theorem rowMajor {g : Grid α} (few : (g.dims.map Bounds.length).prod ≤ maxCells)
    (size : g.cells.size = (g.dims.map Bounds.length).prod) : g.RowMajor := by
  have small : (g.dims.map Bounds.length).prod < wordMax := Nat.lt_of_le_of_lt few (by decide)
  have position {xs : List Int} {i : Nat} (rank : xs.length = g.dims.length) :
      g.position xs = .ok i ↔ Within xs g.dims ∧ i = offset xs g.dims := by
    rw [Grid.position, positionFrom_eq_ok_iff 0 rank, Nat.zero_mul, Nat.zero_add]
  have increasing {xs ys : List Int} {i j : Nat} (hx : xs.length = g.dims.length)
      (hy : ys.length = g.dims.length) (found : g.position xs = .ok i) (found' : g.position ys = .ok j) :
      i < j ↔ xs < ys := by
    obtain ⟨within, rfl⟩ := (position hx).1 found
    obtain ⟨within', rfl⟩ := (position hy).1 found'
    exact offset_lt_iff small within within'
  refine ⟨fun rank => ?_, positionFrom_eq_error_iff, fun rank found => ?_, fun {i} inside => ?_, increasing⟩
  · rw [← Within.forall_mem_zip rank]
    exact ⟨fun ⟨i, found⟩ => ((position rank).1 found).1, fun within => ⟨_, (position rank).2 ⟨within, rfl⟩⟩⟩
  · obtain ⟨within, rfl⟩ := (position rank).1 found
    exact Nat.lt_of_lt_of_eq (offset_lt small within) size.symm
  · obtain ⟨xs, within, rfl⟩ := exists_offset_eq (Nat.lt_of_lt_of_eq inside size)
    have found := (position within.length_eq).2 ⟨within, rfl⟩
    refine ⟨xs, ⟨within.length_eq, found⟩, fun ys ⟨rank, found'⟩ => ?_⟩
    -- Equal positions are in no order, so neither are their tuples.
    have notLess := (increasing rank within.length_eq found' found).not.1 (Nat.lt_irrefl _)
    have notMore := (increasing within.length_eq rank found found').not.1 (Nat.lt_irrefl _)
    exact le_antisymm (not_lt.1 notMore) (not_lt.1 notLess)

/-- What is assigned under one tuple is not seen under another. -/
theorem RowMajor.get?_set {g : Grid α} (h : g.RowMajor) {xs ys : List Int} {i j : Nat}
    (hx : xs.length = g.dims.length) (hy : ys.length = g.dims.length) (found : g.position xs = .ok i)
    (found' : g.position ys = .ok j) (a : α) : (g.set i a).get? j = if ys = xs then some a else g.get? j := by
  rw [get?_set_eq g (h.inside hx found)]
  have same : j = i ↔ ys = xs := by
    constructor
    · rintro rfl
      exact (h.bijective (h.inside hx found)).unique ⟨hy, found'⟩ ⟨hx, found⟩
    · rintro rfl
      exact Except.ok.inj (found'.symm.trans found)
  simp only [same]

end Grid

/-- The number of index tuples is computed as long as it is a word. -/
theorem Bounds.cellCount?_eq (wide : ∀ b ∈ dims, 1 ≤ b.length) (fits : (dims.map Bounds.length).prod ≤ wordMax) :
    cellCount? dims = some (dims.map Bounds.length).prod := by
  have fold (dims : List Bounds) (wide : ∀ b ∈ dims, 1 ≤ b.length) (start : Nat)
      (fits : start * (dims.map Bounds.length).prod ≤ wordMax) :
      dims.foldlM (fun count b => if count * b.length ≤ wordMax then some (count * b.length) else none) start =
        some (start * (dims.map Bounds.length).prod) := by
    induction dims generalizing start with
    | nil => simp
    | cons b dims ih =>
      rw [List.map_cons, List.prod_cons, ← Nat.mul_assoc] at fits ⊢
      have rest := Bounds.one_le_prod fun d member => wide d (List.mem_cons_of_mem b member)
      rw [List.foldlM_cons, if_pos (Nat.le_trans (Nat.le_mul_of_pos_right _ rest) fits)]
      exact ih (fun d member => wide d (List.mem_cons_of_mem b member)) _ fits
  rw [cellCount?, fold dims wide 1 (by rwa [Nat.one_mul]), Nat.one_mul]

theorem Bounds.one_le_length_iff {b : Bounds} : 1 ≤ b.length ↔ b.lower ≤ b.upper := by
  have word : 1 ≤ wordMax := by decide
  unfold length width
  omega

theorem Bounds.isEmpty_eq_false_iff {b : Bounds} : b.isEmpty = false ↔ b.lower ≤ b.upper := by
  rw [← one_le_length_iff, isEmpty, beq_eq_false_iff_ne, Nat.one_le_iff_ne_zero]

/-- The widths of dimensions that do not span too many cells are words. -/
theorem Bounds.map_length_eq (wide : ∀ b ∈ dims, b.lower ≤ b.upper)
    (few : (dims.map Bounds.length).prod ≤ maxCells ∨ (dims.map Bounds.width).prod ≤ maxCells) :
    dims.map Bounds.length = dims.map Bounds.width := by
  refine List.map_congr_left fun b there => ?_
  have word : maxCells < wordMax := by decide
  have factor {f : Bounds → Nat} (pos : ∀ b : Bounds, b.lower ≤ b.upper → 1 ≤ f b) : f b ≤ (dims.map f).prod :=
    Nat.le_of_dvd (one_le_prod fun d member => pos d (wide d member)) (List.dvd_prod (List.mem_map_of_mem there))
  have narrow : b.length ≤ maxCells ∨ b.width ≤ maxCells := by
    refine few.imp (Nat.le_trans (factor fun _ => one_le_length_iff.2)) (Nat.le_trans (factor fun d less => ?_))
    unfold width
    omega
  unfold length at narrow ⊢
  omega

/-- A grid is made of dimensions that do not span too many cells, with all its cells empty. -/
theorem Grid.blank?_eq (wide : ∀ b ∈ dims, b.lower ≤ b.upper) (element : DataType) :
    (Grid.blank? dims element : Option (Grid α)) =
      if (dims.map Bounds.width).prod ≤ maxCells then
        some ⟨dims, element, Array.replicate (dims.map Bounds.width).prod none⟩
      else none := by
  rw [Grid.blank?]
  split_ifs with few
  · have lengths := Bounds.map_length_eq wide (.inr few)
    rw [← lengths] at few ⊢
    have fits : (dims.map Bounds.length).prod ≤ wordMax := Nat.le_trans few (by decide)
    rw [Bounds.cellCount?_eq (fun b member => Bounds.one_le_length_iff.2 (wide b member)) fits]
    dsimp only
    rw [if_pos few]
  · cases counted : Bounds.cellCount? dims with
    | none => rfl
    | some count =>
      obtain rfl := Bounds.cellCount?_eq_some counted
      dsimp only
      refine if_neg fun small => few ?_
      rwa [← Bounds.map_length_eq wide (.inl small)]

/-- What `DECLARE` accepts as the dimensions of an array. -/
theorem startValue_array_iff (name : String) (dims : List Bounds) (type : DataType) :
    (∃ g, startValue name (.array dims type) = .ok (some (.array g))) ↔
      dims ≠ [] ∧ (∀ b ∈ dims, b.lower ≤ b.upper) ∧ (dims.map Bounds.width).prod ≤ maxCells := by
  have bounds : (dims.isEmpty || dims.any Bounds.isEmpty) = false ↔ dims ≠ [] ∧ ∀ b ∈ dims, b.lower ≤ b.upper := by
    simp [Bounds.isEmpty_eq_false_iff]
  rw [← and_assoc, ← bounds]
  unfold startValue
  dsimp only
  cases refused : dims.isEmpty || dims.any Bounds.isEmpty with
  | true => simp
  | false =>
    obtain ⟨-, wide⟩ := bounds.1 refused
    rw [if_neg (by simp), Grid.blank?_eq wide]
    split_ifs with few <;> simp [few]

theorem locate_eq_ok_iff {name : String} {indices : List Int} {i : Nat} :
    locate name g indices = .ok i ↔ indices.length = g.dims.length ∧ g.position indices = .ok i := by
  unfold locate
  split
  · rename_i rank
    cases g.position indices <;> simp [rank]
  · rename_i other
    simp [other]

theorem element_eq {v : Variable} (array : v.value = some (.array g)) (name : String) (indices : List Int) :
    element v name indices =
      match locate name g indices with
      | .ok i => (g.get? i).elim (.error (.uninitializedRead (elementName name indices))) .ok
      | .error cause => .error cause := by
  unfold element
  rw [array]
  dsimp only
  cases located : locate name g indices with
  | error cause => rfl
  | ok i =>
    simp only [bind, Except.bind]
    cases g.get? i <;> rfl

/-- The element under one tuple has been stored, and it is read there and nowhere else. -/
theorem element_setElement {v : Variable} (array : v.value = some (.array g)) (major : g.RowMajor) {name : String}
    {xs : List Int} {i : Nat} (located : locate name g xs = .ok i) (x : Value) (ys : List Int) :
    element { v with value := some (.array (g.set i x)) } name ys =
      if ys = xs then .ok x else element v name ys := by
  rw [element_eq rfl, element_eq array]
  have same : locate name (g.set i x) ys = locate name g ys := rfl
  rw [same]
  cases found : locate name g ys with
  | error cause =>
    have other : ys ≠ xs := by
      rintro rfl
      cases located.symm.trans found
    simp only [if_neg other]
  | ok j =>
    obtain ⟨hx, atX⟩ := locate_eq_ok_iff.1 located
    obtain ⟨hy, atY⟩ := locate_eq_ok_iff.1 found
    dsimp only
    rw [major.get?_set hx hy atX atY]
    split <;> rfl

/-- Names are found whatever the cells hold. -/
theorem Scopes.lookup?_withCells (s : Scopes) (cells : Array Variable) (id : ScopeId) (name : String) :
    { s with cells }.lookup? id name = s.lookup? id name := by
  have search (fuel : Nat) (id : ScopeId) :
      { s with cells }.lookupFrom name fuel id = s.lookupFrom name fuel id := by
    induction fuel generalizing id with
    | zero => rfl
    | succ fuel ih =>
      simp only [lookupFrom, ih]
      rfl
  exact search s.depth id

namespace Exec

variable {name : String}

theorem outcome_readElement {m : Machine σ} {c : CellId} {v : Variable} (found : m.find? name = some (c, v))
    (indices : List Int) (line : Nat) :
    outcome (readElement name indices line m) =
      (element v name indices).mapError fun cause => ⟨cause, line⟩ := by
  have looked := find_eq name line m
  rw [found] at looked
  unfold readElement
  rw [bind_of_ok looked]
  dsimp only
  cases element v name indices <;> rfl

theorem rank_of_assignElement {m m' : Machine σ} {xs : List Int} {x : Value} {line : Nat}
    (stored : assignElement name xs x line m = .ok () m') {c : CellId} {v : Variable} {g : Grid Value}
    (found : m.find? name = some (c, v)) (array : v.value = some (.array g)) : xs.length = g.dims.length := by
  have looked := find_eq name line m
  rw [found] at looked
  unfold assignElement at stored
  rw [bind_of_ok looked] at stored
  dsimp only at stored
  cases planned : planElement v name xs x with
  | error cause =>
    rw [planned] at stored
    cases stored
  | ok plan =>
    obtain ⟨-, g', array', -, rank, -⟩ := planElement_ok planned
    cases array.symm.trans array'
    exact rank

/-- What has been stored under an index tuple is read under this tuple, and under all others what was read before,
be it a value or an error. -/
theorem outcome_readElement_of_assignElement {m m' : Machine σ} (roomy : m.memory.Holds Value.Roomy) {xs : List Int}
    {x : Value} {line : Nat} (stored : assignElement name xs x line m = .ok () m') (ys : List Int) (line' : Nat) :
    outcome (readElement name ys line' m') =
      if ys = xs then .ok x else outcome (readElement name ys line' m) := by
  have atomic := assignElement_atomic roomy name xs x line
  rw [stored] at atomic
  obtain ⟨c, v, g, i, found, array, position, there, -, cells, slots, rest⟩ := atomic
  have rank := rank_of_assignElement stored found array
  have found' : m'.find? name = some (c, { v with value := some (.array (g.set i x)) }) := by
    refine Machine.find?_eq_some.2 ⟨?_, there⟩
    obtain ⟨_, _, _, -, rfl⟩ := rest
    exact (Scopes.lookup?_withCells ..).trans (Machine.find?_eq_some.1 found).1
  obtain ⟨few, size, -, -⟩ := (roomy.cells (Machine.cell_of_find? found) array).grid
  rw [outcome_readElement found', outcome_readElement found,
    element_setElement array (Grid.rowMajor few size) (locate_eq_ok_iff.2 ⟨rank, position⟩)]
  split <;> rfl

end Exec

/-- An array is accepted if it has dimensions, none of them empty, and not too many cells. Its index tuples then
stand for its cells in row-major order, and no result on the way to a position leaves the machine words. What
is assigned under one tuple is not seen under another: neither in the array, nor where a run stores an element
and reads one by name. -/
theorem array_addressing_row_major (name : String) (dims : List Bounds) (type : DataType) :
    ((∃ g, startValue name (.array dims type) = .ok (some (.array g))) ↔
      dims ≠ [] ∧ (∀ b ∈ dims, b.lower ≤ b.upper) ∧ (dims.map Bounds.width).prod ≤ maxCells) ∧
    (∀ blank, startValue name (.array dims type) = .ok (some (.array blank)) →
      blank.dims = dims ∧ blank.size = (dims.map Bounds.width).prod ∧
      ∀ g : Grid Value, g.dims = dims → g.size = blank.size →
        g.RowMajor ∧ (∀ xs, Grid.wordPositionFrom 0 xs dims = some (g.position xs)) ∧
        ∀ xs ys i j x, xs.length = dims.length → ys.length = dims.length →
          g.position xs = .ok i → g.position ys = .ok j →
          (g.set i x).get? j = if ys = xs then some x else g.get? j) ∧
    ∀ (p : Program) (host : Host σ) (config : Config) (draws : Draws) (state : σ) (m m' : Machine σ),
      ComesToStore p host config draws state m →
      ∀ xs x line, assignElement name xs x line m = .ok () m' →
        ∀ ys line', outcome (readElement name ys line' m') =
          if ys = xs then .ok x else outcome (readElement name ys line' m) := by
  refine ⟨startValue_array_iff name dims type, fun blank accepted => ?_, fun p host config draws state m m' there => ?_⟩
  · obtain ⟨-, wide, few⟩ := (startValue_array_iff name dims type).1 ⟨blank, accepted⟩
    have lengths := Bounds.map_length_eq wide (.inr few)
    obtain ⟨_, _, _, ⟨⟩, made, ⟨⟩⟩ := startValue_ok accepted rfl
    obtain ⟨same, -, size, -⟩ := Grid.blank?_eq_some made
    refine ⟨same, size.trans (congrArg _ lengths), fun g dim cells => ?_⟩
    subst dim
    have few : (g.dims.map Bounds.length).prod ≤ maxCells := lengths ▸ few
    have major := Grid.rowMajor few (Eq.trans cells size)
    refine ⟨major, fun xs => ?_, fun xs ys i j x hx hy atX atY => major.get?_set hx hy atX atY x⟩
    exact Grid.wordPositionFrom_eq xs (fun b member => Bounds.one_le_length_iff.2 (wide b member))
      (by rwa [Nat.one_mul]) Nat.one_pos
  · exact fun xs x line stored => outcome_readElement_of_assignElement there.holds stored

/-- A run that declares an array. -/
def arrayOfFlags : Program where
  statements := [.declare "a" (.array [⟨0, 1⟩] .boolean) ⟨1, 1⟩]

/-- An array at both ends of the signed words, and a run that stores an element and reads it back. -/
theorem arrayOfFlags_addressing :
    (∃ blank, startValue "a" (.array [⟨2 ^ 63 - 2, 2 ^ 63 - 1⟩, ⟨-(2 ^ 63), 2 - 2 ^ 63⟩] .boolean) =
        .ok (some (.array blank)) ∧
      blank.RowMajor ∧ blank.position [2 ^ 63 - 1, 1 - 2 ^ 63] = .ok 4 ∧
      Grid.wordPositionFrom 0 [2 ^ 63 - 1, 1 - 2 ^ 63] blank.dims = some (.ok 4)) ∧
    ∃ m m' : Machine Script, ComesToStore arrayOfFlags Script.host { arenaSize := 1030 } 0 {} m ∧
      assignElement "a" [1] (.boolean true) 2 m = .ok () m' ∧
      outcome (readElement "a" [1] 3 m') = .ok (.boolean true) ∧
      (outcome (readElement "a" [0] 3 m')).isOk = false := by
  let dims : List Bounds := [⟨2 ^ 63 - 2, 2 ^ 63 - 1⟩, ⟨-(2 ^ 63), 2 - 2 ^ 63⟩]
  obtain ⟨accepts, shapes, -⟩ := @array_addressing_row_major Script "a" dims .boolean
  obtain ⟨blank, accepted⟩ := accepts.2 (by decide)
  obtain ⟨shape, -, grids⟩ := shapes blank accepted
  obtain ⟨major, words, -⟩ := grids blank shape rfl
  have position : blank.position [2 ^ 63 - 1, 1 - 2 ^ 63] = .ok 4 := by
    rw [Grid.position, shape]
    rfl
  refine ⟨⟨blank, accepted, major, position, by rw [shape, words, position]⟩, ?_⟩
  let m := final (arrayOfFlags.exec Script.host { arenaSize := 1030 } (.initial { arenaSize := 1030 } 0 {}))
  have there : ComesToStore arrayOfFlags Script.host { arenaSize := 1030 } 0 {} m :=
    (reachable_final arrayOfFlags Script.host { arenaSize := 1030 } 0 {}).comesToStore
  have ended : (outcome (assignElement "a" [1] (.boolean true) 2 m)).isOk = true := by decide +kernel
  have empty : (outcome (readElement "a" [0] 3 m)).isOk = false := by decide +kernel
  clear_value m
  cases run : assignElement "a" [1] (.boolean true) 2 m with
  | error e m' =>
    rw [run] at ended
    cases ended
  | ok _ m' =>
    have reads := (array_addressing_row_major "a" dims .boolean).2.2 _ _ _ _ _ m m' there [1] (.boolean true) 2 run
    exact ⟨m, m', there, run, reads [1] 3, (congrArg Except.isOk (reads [0] 3)).trans empty⟩

end Pseudocode
