import Mathlib.Data.Nat.Digits.Defs
import Pseudocode.Arena.Dump
import Pseudocode.Proofs.Numbers.Whole

/-!
The layout of dumps. A row is a field of sixteen cells, each of two characters and a blank, less the last blank
(`cellField_append_blank`); the cells that a short row lacks are blank. So every slot has a place of its own, which
its address gives (`dump_layout`).
-/

namespace Pseudocode

/-- The digits of a number in base sixteen, at least `width` of them. -/
def hexDigits (width n : Nat) : List Char :=
  List.replicate (width - (Nat.toDigits 16 n).length) '0' ++ Nat.toDigits 16 n

theorem toList_hex (width n : Nat) : (Text.hex width n).toList = hexDigits width n := String.toList_ofList

theorem lineFeed_notMem_hexDigits (width n : Nat) : '\n' ∉ hexDigits width n := by
  have digits : '\n' ∉ Nat.toDigits 16 n := by
    induction n using Nat.strongRecOn with
    | ind n ih =>
      rw [Nat.toDigits_eq_if (by decide)]
      split
      · simp
      · simpa using ih (n / 16) (by omega)
  simp [hexDigits, digits]

theorem Value.lowByte_lt (v : Value) : v.lowByte < 256 := by
  cases v with
  | number x => show (Number.toInt64 x % 256).toNat < 256; omega
  | text s =>
    show (s.toUTF8.data[0]?.map UInt8.toNat).getD 0 < 256
    cases s.toUTF8.data[0]? with
    | none => decide
    | some byte => exact byte.toNat_lt
  | boolean b => cases b <;> decide
  | address a => exact Nat.mod_lt a (by decide)
  | array grid => exact Nat.zero_lt_succ 255

/-- An integer of 64 bits shows its last byte, in two's complement. -/
theorem Value.lowByte_whole {x : Float} {k : Int} (whole : Number.whole? x = some k) (low : -2 ^ 63 ≤ k)
    (high : k < 2 ^ 63) : ((number x).lowByte : Int) = k % 256 := by
  rw [lowByte_number, Number.toInt64_of_whole? whole low high]

/-- The digits of a byte. -/
theorem hex_byte : ∀ byte < 256,
    (Text.hex 2 byte).toList = [Nat.digitChar (byte / 16), Nat.digitChar (byte % 16)] := by
  decide +kernel

namespace Slot

theorem length_hexCell (s : Slot) : s.hexCell.toList.length = 2 := by
  cases s with
  | unallocated | unwritten => rfl
  | holding v => rw [hexCell, hex_byte _ v.lowByte_lt]; rfl

theorem lineFeed_notMem_hexCell (s : Slot) : '\n' ∉ s.hexCell.toList := by
  cases s with
  | unallocated | unwritten => decide
  | holding v => rw [hexCell, toList_hex]; exact lineFeed_notMem_hexDigits 2 v.lowByte

theorem glyph_ne_lineFeed (s : Slot) : s.glyph ≠ '\n' := by
  cases s with
  | unallocated | unwritten => decide
  | holding v =>
    have printed : ∀ byte < 256, byteGlyph byte ≠ '\n' := by decide +kernel
    exact printed v.lowByte v.lowByte_lt

end Slot

section Field

/-- A cell of a field, with the blank behind it. -/
def spaced (cell : List Char) : List Char := cell ++ [' ']

variable {cells : List (List Char)}

theorem intercalate_append_blank (some : cells ≠ []) : [' '].intercalate cells ++ [' '] = cells.flatMap spaced := by
  induction cells with
  | nil => exact absurd rfl some
  | cons cell rest ih =>
    cases rest with
    | nil => simp [spaced]
    | cons next rest =>
      rw [List.intercalate_cons_cons, List.append_assoc, ih (List.cons_ne_nil next rest), List.flatMap_cons]
      rfl

theorem flatMap_blank (n : Nat) : (List.replicate n [' ', ' ']).flatMap spaced = List.replicate (3 * n) ' ' := by
  induction n with
  | zero => rfl
  | succ n ih =>
    rw [List.replicate_succ, List.flatMap_cons, ih, Nat.mul_succ]
    rfl

theorem length_spaced {cell : List Char} (two : cell.length = 2) : (spaced cell).length = 3 := by simp [spaced, two]

theorem length_flatMap_spaced (two : ∀ cell ∈ cells, cell.length = 2) :
    (cells.flatMap spaced).length = 3 * cells.length := by
  induction cells with
  | nil => rfl
  | cons cell rest ih =>
    rw [List.forall_mem_cons] at two
    rw [List.flatMap_cons, List.length_append, ih two.2, length_spaced two.1, List.length_cons]
    omega

/-- Every cell begins where its number says. -/
theorem drop_flatMap_spaced (two : ∀ cell ∈ cells, cell.length = 2) (i : Nat) :
    (cells.flatMap spaced).drop (3 * i) = (cells.drop i).flatMap spaced := by
  induction i generalizing cells with
  | zero => rfl
  | succ i ih =>
    cases cells with
    | nil => rfl
    | cons cell rest =>
      rw [List.forall_mem_cons] at two
      rw [List.flatMap_cons, List.drop_succ_cons, ← ih two.2, Nat.mul_succ, Nat.add_comm, ← List.drop_drop,
        List.drop_left' (length_spaced two.1)]

end Field

namespace Arena

/-- The cells of some slots, and blank ones up to the width of a row. -/
def rowCells (slots : List Slot) : List (List Char) :=
  slots.map (·.hexCell.toList) ++ List.replicate (dumpWidth - slots.length) [' ', ' ']

variable {slots : List Slot}

theorem length_of_mem_rowCells {cell : List Char} (mem : cell ∈ rowCells slots) : cell.length = 2 := by
  rcases List.mem_append.1 mem with shown | blank
  · obtain ⟨s, -, rfl⟩ := List.mem_map.1 shown
    exact s.length_hexCell
  · rw [List.eq_of_mem_replicate blank]
    rfl

theorem length_rowCells (fits : slots.length ≤ dumpWidth) : (rowCells slots).length = dumpWidth := by
  simp only [rowCells, List.length_append, List.length_map, List.length_replicate]
  omega

/-- The cells of a row as it shows them. -/
def cellField (slots : List Slot) : List Char :=
  [' '].intercalate (slots.map (·.hexCell.toList)) ++ List.replicate (3 * (dumpWidth - slots.length)) ' '

theorem cellField_append_blank (some : slots ≠ []) : cellField slots ++ [' '] = (rowCells slots).flatMap spaced := by
  have shown : slots.map (·.hexCell.toList) ≠ [] := by simpa using some
  rw [cellField, rowCells, List.flatMap_append, flatMap_blank, ← intercalate_append_blank shown, List.append_assoc,
    List.append_assoc, List.append_cancel_left_eq, ← List.replicate_succ', List.replicate_succ]
  rfl

theorem length_cellField (some : slots ≠ []) (fits : slots.length ≤ dumpWidth) : (cellField slots).length = 47 := by
  have length := congrArg List.length (cellField_append_blank some)
  rw [length_flatMap_spaced fun _ => length_of_mem_rowCells, length_rowCells fits, List.length_append, dumpWidth]
    at length
  simpa using length

/-- Where a cell begins, its characters follow, and a blank behind them. -/
theorem exists_drop_cellField (some : slots ≠ []) {column : Nat} {cell : List Char}
    (here : (rowCells slots)[column]? = .some cell) :
    ∃ rest, (cellField slots ++ [' ']).drop (3 * column) = cell ++ ' ' :: rest := by
  refine ⟨((rowCells slots).drop (column + 1)).flatMap spaced, ?_⟩
  rw [cellField_append_blank some, drop_flatMap_spaced fun _ => length_of_mem_rowCells,
    List.drop_eq_getElem?_toList_append, here]
  simp [spaced]

theorem cell_cellField (fits : slots.length ≤ dumpWidth) {column : Nat} {s : Slot}
    (there : slots[column]? = some s) : ((cellField slots).drop (3 * column)).take 2 = s.hexCell.toList := by
  have inside := (List.getElem?_eq_some_iff.1 there).1
  have some : slots ≠ [] := List.ne_nil_of_length_pos (Nat.zero_lt_of_lt inside)
  have here : (rowCells slots)[column]? = .some s.hexCell.toList := by
    rw [rowCells, List.getElem?_append_left (by simpa using inside), List.getElem?_map, there]
    rfl
  obtain ⟨rest, found⟩ := exists_drop_cellField some here
  have length := length_cellField some fits
  unfold dumpWidth at fits
  rw [List.drop_append_of_le_length (by omega)] at found
  have whole := congrArg (List.take 2) found
  rw [List.take_append_of_le_length (by rw [List.length_drop]; omega)] at whole
  exact whole.trans (List.take_left' s.length_hexCell)

/-- Between the cells and behind the last one, a row is blank. -/
theorem blank_cellField (some : slots ≠ []) (fits : slots.length ≤ dumpWidth) {i : Nat} (inside : i < 47)
    (between : i % 3 = 2 ∨ 3 * slots.length ≤ i) : (cellField slots)[i]? = .some ' ' := by
  have length : (rowCells slots).length = 16 := length_rowCells fits
  obtain ⟨cell, here⟩ : ∃ cell, (rowCells slots)[i / 3]? = .some cell :=
    ⟨_, List.getElem?_eq_getElem (by omega)⟩
  have two := length_of_mem_rowCells (List.mem_of_getElem? here)
  obtain ⟨rest, found⟩ := exists_drop_cellField some here
  have field : (cellField slots)[i]? = (cell ++ ' ' :: rest)[i % 3]? := by
    rw [← found, List.getElem?_drop, Nat.div_add_mod,
      List.getElem?_append_left (by rw [length_cellField some fits]; exact inside)]
  rw [field]
  by_cases last : i % 3 = 2
  · rw [last, ← two, List.getElem?_append_right (Nat.le_refl _), Nat.sub_self]
    rfl
  · have behind : slots.length ≤ i / 3 := by omega
    rw [rowCells, List.getElem?_append_right (by simpa using behind), List.getElem?_replicate] at here
    split at here <;> cases here
    obtain zero | one : i % 3 = 0 ∨ i % 3 = 1 := by omega
    · rw [zero]; rfl
    · rw [one]; rfl

/-- A row without its line feed. -/
def rowText (address : Nat) (slots : List Slot) : List Char :=
  '0' :: 'x' :: hexDigits 4 address ++ [':', ' '] ++ cellField slots ++ [' ', '|'] ++ slots.map Slot.glyph ++ ['|']

theorem toList_dumpRow (address : Nat) (slots : List Slot) :
    (dumpRow address slots).toList = rowText address slots ++ ['\n'] := by
  have row : dumpRow address slots =
      "0x" ++ Text.hex 4 address ++ ": " ++ String.intercalate " " (slots.map Slot.hexCell) ++
        String.ofList (List.replicate (3 * (dumpWidth - slots.length)) ' ') ++ " |" ++
        String.ofList (slots.map Slot.glyph) ++ "|\n" := rfl
  simp [row, rowText, toList_hex, cellField, String.toList_intercalate, Function.comp_def]

theorem lineFeed_notMem_rowText (address : Nat) (some : slots ≠ []) : '\n' ∉ rowText address slots := by
  have field : '\n' ∉ cellField slots := by
    intro mem
    have among := List.mem_append_left [' '] mem
    rw [cellField_append_blank some, List.mem_flatMap] at among
    obtain ⟨cell, there, mem⟩ := among
    rcases List.mem_append.1 mem with mem | blank
    · rcases List.mem_append.1 there with shown | blank
      · obtain ⟨s, -, rfl⟩ := List.mem_map.1 shown
        exact s.lineFeed_notMem_hexCell mem
      · rw [List.eq_of_mem_replicate blank] at mem
        simp at mem
    · simp at blank
  have glyphs : '\n' ∉ slots.map Slot.glyph := by
    intro mem
    obtain ⟨s, -, glyph⟩ := List.mem_map.1 mem
    exact s.glyph_ne_lineFeed glyph
  simp [rowText, lineFeed_notMem_hexDigits, field, glyphs]

/-- What two characters tell of the slot at an address. -/
structure ShowsSlot (a : Arena) (address : Nat) (cell : List Char) : Prop where
  unallocated : cell = ['-', '-'] ↔ a.isAllocated address = false
  unwritten : cell = ['?', '?'] ↔ a.isAllocated address = true ∧ a.peek? address = none
  holding (v : Value) : a.isAllocated address = true → a.peek? address = some v →
    v.lowByte < 256 ∧ cell = [Nat.digitChar (v.lowByte / 16), Nat.digitChar (v.lowByte % 16)]

theorem showsSlot (a : Arena) (address : Nat) : a.ShowsSlot address (a.slot address).hexCell.toList := by
  have marks : ∀ byte < 256, Nat.digitChar (byte / 16) ≠ '-' ∧ Nat.digitChar (byte / 16) ≠ '?' := by decide +kernel
  unfold slot
  cases taken : a.isAllocated address with
  | false => constructor <;> simp [taken, Slot.hexCell]
  | true =>
    cases held : a.peek? address with
    | none => constructor <;> simp [taken, held, Slot.hexCell]
    | some v =>
      have small := v.lowByte_lt
      have cell : (Slot.holding v).hexCell.toList = _ := hex_byte v.lowByte small
      simp only [↓reduceIte, cell]
      constructor <;> simp +contextual [taken, held, marks _ small, small]

/-- How a row shows `count` slots from an address on. A column is three characters wide, its cell the first two of
them, and what is not in a cell is blank. -/
structure ShowsRow (a : Arena) (address count : Nat) (cells glyphs : List Char) : Prop where
  width : cells.length = 47
  cell (column : Nat) : column < count → a.ShowsSlot (address + column) ((cells.drop (3 * column)).take 2)
  blank (i : Nat) : i < 47 → i % 3 = 2 ∨ 3 * count ≤ i → cells[i]? = some ' '
  glyphs : glyphs = (List.range count).map fun column => (a.slot (address + column)).glyph

theorem showsRow (a : Arena) (address : Nat) {count : Nat} (some : 0 < count) (fits : count ≤ dumpWidth) :
    a.ShowsRow address count (cellField (a.rowSlots address count)) ((a.rowSlots address count).map Slot.glyph) := by
  have length : (a.rowSlots address count).length = count := by simp [rowSlots]
  have filled : a.rowSlots address count ≠ [] := List.ne_nil_of_length_pos (by omega)
  rw [← length] at fits
  refine ⟨length_cellField filled fits, fun column inside => ?_, fun i inside between => ?_, List.map_map⟩
  · have there : (a.rowSlots address count)[column]? = .some (a.slot (address + column)) := by
      simp [rowSlots, inside]
    rw [cell_cellField fits there]
    exact a.showsSlot (address + column)
  · exact blank_cellField filled fits inside (by rwa [length])

-- By induction on the number of the row; each row but the first is a row of the dump sixteen slots on.
theorem getElem?_dumpRows (a : Arena) {row stop : Nat} (r : Nat) :
    (a.dumpRows row stop)[r]? =
      if row + 16 * r < stop then
        some (dumpRow (row + 16 * r) (a.rowSlots (row + 16 * r) (min 16 (stop - (row + 16 * r)))))
      else none := by
  induction r generalizing row with
  | zero =>
    rw [dumpRows]
    split
    · rename_i begun
      have count : min (row + dumpWidth) stop - row = min 16 (stop - row) := by
        unfold dumpWidth
        omega
      rw [count, List.getElem?_cons_zero, Nat.mul_zero, Nat.add_zero, if_pos begun]
    · rw [if_neg (by omega)]
      rfl
  | succ r ih =>
    have next : row + dumpWidth + 16 * r = row + 16 * (r + 1) := by
      unfold dumpWidth
      omega
    rw [dumpRows]
    split
    · rw [List.getElem?_cons_succ, ih, next]
    · rw [if_neg (by omega)]
      rfl

/-- The rows of `n` slots from an address on, without their line feeds. -/
def rowTexts (a : Arena) (b n : Nat) : List (List Char) :=
  (List.range ((n + 15) / 16)).map fun r =>
    rowText (b + 16 * r) (a.rowSlots (b + 16 * r) (min 16 (n - 16 * r)))

theorem dumpRows_eq (a : Arena) (row stop : Nat) :
    (a.dumpRows row stop).map String.toList = (a.rowTexts row (stop - row)).map (· ++ ['\n']) := by
  refine List.ext_getElem? fun r => ?_
  rw [List.getElem?_map, getElem?_dumpRows, rowTexts, List.map_map, List.getElem?_map]
  split
  · rw [List.getElem?_range (by omega), Option.map_some, toList_dumpRow, Nat.sub_add_eq]
    rfl
  · rw [List.getElem?_eq_none (by simp only [List.length_range]; omega)]
    rfl

theorem toList_dump (a : Arena) (start length : Nat) :
    (a.dump start length).toList =
      (a.rowTexts (min start a.size) (min (min start a.size + length) a.size - min start a.size)).flatMap
        (· ++ ['\n']) := by
  rw [dump, String.toList_join, List.flatMap_def, dumpRows_eq, ← List.flatMap_def]

theorem length_rowTexts (a : Arena) (b n : Nat) : (a.rowTexts b n).length = (n + 15) / 16 := by simp [rowTexts]

theorem getElem?_rowTexts {a : Arena} {b n r : Nat} {row : List Char} (there : (a.rowTexts b n)[r]? = some row) :
    0 < min 16 (n - 16 * r) ∧ row = rowText (b + 16 * r) (a.rowSlots (b + 16 * r) (min 16 (n - 16 * r))) := by
  have inRange := (List.getElem?_eq_some_iff.1 there).1
  rw [length_rowTexts] at inRange
  refine ⟨by omega, ?_⟩
  simpa [rowTexts, inRange, eq_comm] using there

/-- A dump of slots that are there has a row for each sixteen slots and one for those left over. Each row ends with
a line feed, begins with the address of its first slot, and shows its slots in fields of a fixed place and width.
Every slot of the dump has one row and one column, which its distance from the first slot gives. -/
theorem dump_layout (a : Arena) (start length : Nat) :
    let b := min start a.size
    let n := min (b + length) a.size - b
    ∃ rows : List (List Char),
      (a.dump start length).toList = rows.flatMap (· ++ ['\n']) ∧
      (∀ row ∈ rows, '\n' ∉ row) ∧
      rows.length = (n + 15) / 16 ∧
      (∀ r row, rows[r]? = some row → ∃ cells glyphs,
        row = '0' :: 'x' :: hexDigits 4 (b + 16 * r) ++ [':', ' '] ++ cells ++ [' ', '|'] ++ glyphs ++ ['|'] ∧
        a.ShowsRow (b + 16 * r) (min 16 (n - 16 * r)) cells glyphs) ∧
      ∀ i, b ≤ i → i < b + n → ∃! place : Nat × Nat,
        place.1 < rows.length ∧ place.2 < min 16 (n - 16 * place.1) ∧ b + 16 * place.1 + place.2 = i := by
  intro b n
  refine ⟨a.rowTexts b n, a.toList_dump start length, fun row mem => ?_, a.length_rowTexts b n, fun r row there => ?_,
    fun i low high => ⟨((i - b) / 16, (i - b) % 16), ?_, ?_⟩⟩
  · obtain ⟨r, there⟩ := List.getElem?_of_mem mem
    obtain ⟨some, rfl⟩ := getElem?_rowTexts there
    exact lineFeed_notMem_rowText _ (List.ne_nil_of_length_pos (by simpa [rowSlots] using some))
  · obtain ⟨some, rfl⟩ := getElem?_rowTexts there
    exact ⟨_, _, rfl, a.showsRow _ some (Nat.min_le_left ..)⟩
  · rw [length_rowTexts]
    omega
  · rintro ⟨r, column⟩ ⟨-, narrow, place⟩
    rw [Prod.mk.injEq]
    dsimp only at narrow place
    omega

example :
    (⟨#[none, none, some (.text "A")], #[false, true, true], [], #[], 3, rfl⟩ : Arena).dump 1 9 =
      "0x0001: ?? 41                                           |.A|\n" := by
  cbv

end Arena

end Pseudocode
