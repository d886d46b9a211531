import Pseudocode.Arena

/-!
Hexadecimal dumps of the arena: sixteen slots a row, as bytes and as characters.
-/

namespace Pseudocode

/-- The number of slots in a row. -/
def dumpWidth : Nat := 16

/-- The byte that a dump shows for a value: the low byte of a number or an address, the first byte
of a text. -/
def Value.lowByte : Value → Nat
  | .number x => (Number.toInt64 x % 256).toNat
  | .text s => (s.toUTF8.data[0]?.map UInt8.toNat).getD 0
  | .boolean b => b.toNat
  | .address a => a % 256
  | .array _ => 0

namespace Value

theorem lowByte_number (x : Float) : ((number x).lowByte : Int) = Number.toInt64 x % 256 :=
  Int.toNat_of_nonneg (Int.emod_nonneg _ (by decide))

@[simp] theorem lowByte_empty : (text "").lowByte = 0 := rfl

/-- A text shows the first byte of its first character. -/
theorem lowByte_text (c : Char) (cs : List Char) :
    (text (String.ofList (c :: cs))).lowByte = ((String.utf8EncodeChar c).head (by simp)).toNat := by
  have first : (String.ofList (c :: cs)).toUTF8.data[0]? = some ((String.utf8EncodeChar c).head (by simp)) := by
    show (c :: cs).utf8Encode.data[0]? = _
    rw [List.utf8Encode, List.flatMap_cons, List.data_toByteArray, List.getElem?_toArray, ← List.head?_eq_getElem?,
      List.head?_append, List.head?_eq_some_head (by simp), Option.some_or]
  rw [lowByte, first]
  rfl

/-- In ASCII a character is its byte. -/
theorem lowByte_ascii {c : Char} (ascii : c.toNat < 128) (cs : List Char) :
    (text (String.ofList (c :: cs))).lowByte = c.toNat := by
  have encoded : String.utf8EncodeChar c = [UInt8.ofNat c.toNat] := by
    rw [String.utf8EncodeChar, if_pos (show c.val.toNat ≤ 127 from Nat.le_of_lt_succ ascii)]
    rfl
  simp only [lowByte_text, encoded, List.head_cons, UInt8.toNat_ofNat']
  omega

@[simp] theorem lowByte_boolean (b : Bool) : (boolean b).lowByte = if b then 1 else 0 := by cases b <;> rfl

@[simp] theorem lowByte_address (a : Nat) : (address a).lowByte = a % 256 := rfl

@[simp] theorem lowByte_array (g : Grid Value) : (array g).lowByte = 0 := rfl

end Value

/-- The character of a byte; a full stop if it has none that prints in ASCII. -/
def byteGlyph (byte : Nat) : Char := if 0x20 ≤ byte ∧ byte ≤ 0x7e then Char.ofNat byte else '.'

namespace Slot

def hexCell : Slot → String
  | .unallocated => "--"
  | .unwritten => "??"
  | .holding v => Text.hex 2 v.lowByte

def glyph : Slot → Char
  | .holding v => byteGlyph v.lowByte
  | _ => '.'

end Slot

namespace Arena

/-- One row of a dump. A short row is filled up, so that the characters stay in their column. -/
def dumpRow (address : Nat) (slots : List Slot) : String :=
  let cells := String.intercalate " " (slots.map Slot.hexCell)
  let filling := String.ofList (List.replicate (3 * (dumpWidth - slots.length)) ' ')
  let glyphs := String.ofList (slots.map Slot.glyph)
  s!"{addressText address}: {cells}{filling} |{glyphs}|\n"

/-- The `count` slots from an address on. -/
def rowSlots (a : Arena) (address count : Nat) : List Slot :=
  (List.range count).map fun column => a.slot (address + column)

/-- The rows of the slots from an address up to another. -/
def dumpRows (a : Arena) (row stop : Nat) : List String :=
  if row < stop then
    dumpRow row (a.rowSlots row (min (row + dumpWidth) stop - row)) :: dumpRows a (row + dumpWidth) stop
  else []
termination_by stop - row
decreasing_by simp only [dumpWidth]; omega

/-- A dump of `length` slots from an address on, as far as there are any. -/
def dump (a : Arena) (start : Nat) (length : Nat) : String :=
  let first := min start a.size
  String.join (a.dumpRows first (min (first + length) a.size))

end Arena

end Pseudocode
