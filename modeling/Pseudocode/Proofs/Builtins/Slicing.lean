import Pseudocode.Builtin
import Pseudocode.Proofs.Numbers.Whole

/-!
The built-in functions that cut texts. Each is the cut of a list of characters if its numbers are in range, and
refuses them otherwise (`left_eq`, `right_eq`, `mid_eq`), so that the pieces fit together (`slices_fit_together`).
What is checked before keeps the subtractions of unsigned words from going below zero (`wordRightOf`, `wordMidOf`).
-/

namespace Pseudocode.Builtin

open Number

section Arguments

variable {x : Float} {n : Int} {limit : Nat}

theorem wholeAt_number (b : Builtin) (position : Nat) (whole : whole? x = some n) :
    b.wholeAt position (.number x) = .ok (toInt64 x) := by
  show (if isWhole x then .ok (toInt64 x) else b.refuse (.notWhole position)) = _
  rw [if_pos (isWhole_of_whole? whole)]

/-- A number of characters is taken if it is in range. One that is no signed word becomes the word next to it, which is
out of range too. -/
theorem countAt_number (b : Builtin) (position : Nat) (whole : whole? x = some n) (fits : limit < 2 ^ 63 - 1) :
    b.countAt position limit (.number x) =
      if 0 ≤ n ∧ n ≤ limit then .ok n.toNat else b.refuse (.length (toInt64 x) limit) := by
  have word := toInt64_eq_clamped whole
  unfold countAt
  rw [wholeAt_number b position whole]
  show (if toInt64 x < 0 ∨ (limit : Int) < toInt64 x then b.refuse (.length (toInt64 x) limit) else
    .ok (toInt64 x).toNat) = _
  split_ifs with refused inside inside
  · omega
  · rfl
  · congr 2
    omega
  · omega

/-- Whatever the argument is, a number of characters that is taken is in range. -/
theorem le_of_countAt {b : Builtin} {position k : Nat} {v : Value} (counted : b.countAt position limit v = .ok k) :
    k ≤ limit := by
  unfold countAt at counted
  cases word : b.wholeAt position v with
  | error e =>
    rw [word] at counted
    cases counted
  | ok n =>
    rw [word] at counted
    dsimp only [bind, Except.bind] at counted
    split at counted
    · cases counted
    · cases counted
      omega

end Arguments

section Cuts

variable {s : String} {x y : Float} {n i : Int} (draw : Float)

theorem left_eq (whole : whole? x = some n) (fits : s.length < 2 ^ 63 - 1) :
    left.apply draw [.text s, .number x] =
      if 0 ≤ n ∧ n ≤ s.length then .ok (.text (takeLeft n.toNat s))
      else left.refuse (.length (toInt64 x) s.length) := by
  show (left.countAt 2 s.length (.number x) >>= fun n => pure (Value.text (takeLeft n s))) = _
  rw [countAt_number left 2 whole fits]
  split <;> rfl

theorem right_eq (whole : whole? x = some n) (fits : s.length < 2 ^ 63 - 1) :
    right.apply draw [.text s, .number x] =
      if 0 ≤ n ∧ n ≤ s.length then .ok (.text (dropLeft (s.length - n.toNat) s))
      else right.refuse (.length (toInt64 x) s.length) := by
  show (right.countAt 2 s.length (.number x) >>= fun n => pure (Value.text (dropLeft (s.length - n) s))) = _
  rw [countAt_number right 2 whole fits]
  split <;> rfl

theorem mid_eq (start : whole? x = some i) (whole : whole? y = some n) (fits : s.length < 2 ^ 63 - 1) :
    mid.apply draw [.text s, .number x, .number y] =
      if 1 ≤ i ∧ i ≤ max s.length 1 then
        if 0 ≤ n ∧ n ≤ s.length - i + 1 then .ok (.text (takeLeft n.toNat (dropLeft (i.toNat - 1) s)))
        else mid.refuse (.length (toInt64 y) (s.length - (i.toNat - 1)))
      else mid.refuse (.start (toInt64 x) s.length) := by
  have word := toInt64_eq_clamped start
  show (mid.wholeAt 2 (.number x) >>= _) = _
  rw [wholeAt_number mid 2 start]
  dsimp only [bind, Except.bind]
  split_ifs with refused inside inside inside
  · omega
  · omega
  · rfl
  · have same : toInt64 x = i := by omega
    rw [same, countAt_number mid 3 whole (by omega), if_pos (by omega)]
    rfl
  · have same : toInt64 x = i := by omega
    rw [same, countAt_number mid 3 whole (by omega), if_neg (by omega)]
    rfl
  · omega

end Cuts

section Words

/-- The difference of two unsigned words; none below zero. -/
def wordSub? (a b : Nat) : Option Nat := if b ≤ a then some (a - b) else none

/-- What `RIGHT` does with unsigned words: none if a difference does not exist. -/
def wordRightOf (s n : Value) : ExceptT Cause Option Value := do
  let s ← right.textAt 1 s
  let n ← right.countAt 2 s.length n
  let skipped ← wordSub? s.length n
  pure (.text (dropLeft skipped s))

/-- What `MID` does with unsigned words. -/
def wordMidOf (s start n : Value) : ExceptT Cause Option Value := do
  let s ← mid.textAt 1 s
  let start ← mid.wholeAt 2 start
  if start < 1 ∨ max s.length 1 < start then mid.refuse (.start start s.length)
  let skipped ← wordSub? start.toNat 1
  let rest ← wordSub? s.length skipped
  let n ← mid.countAt 3 rest n
  pure (.text (takeLeft n (dropLeft skipped s)))

section Steps

variable {α β : Type} {a b : Nat} {x : Except Cause α} {f : α → ExceptT Cause Option β} {g : α → Except Cause β}

/-- A step that may fail, but takes no difference. -/
theorem run_bind_except (next : ∀ a, x = .ok a → (f a).run = some (g a)) :
    (liftM x >>= f : ExceptT Cause Option β).run = some (x >>= g) := by
  cases x with
  | error e => rfl
  | ok a => exact next a rfl

theorem run_bind_wordSub? (le : b ≤ a) (f : Nat → ExceptT Cause Option β) :
    (liftM (wordSub? a b) >>= f : ExceptT Cause Option β).run = (f (a - b)).run := by
  rw [wordSub?, if_pos le]
  rfl

end Steps

theorem wordRightOf_eq (v w : Value) : (wordRightOf v w).run = some (right.rightOf v w) := by
  refine run_bind_except fun s _ => run_bind_except fun n counted => ?_
  rw [run_bind_wordSub? (le_of_countAt counted)]
  rfl

theorem wordMidOf_eq (v w u : Value) : (wordMidOf v w u).run = some (mid.midOf v w u) := by
  refine run_bind_except fun s _ => run_bind_except fun start _ => ?_
  split
  · rfl
  · rename_i inside
    rw [run_bind_wordSub? (by omega), run_bind_wordSub? (by omega)]
    exact run_bind_except fun n _ => rfl

end Words

/-- What `LENGTH` gives for a text. -/
def HasLength (draw : Float) (t : String) (n : Int) : Prop :=
  ∃ z, length.apply draw [.text t] = .ok (.number z) ∧ whole? z = some n

/-- A call gives a text of `n` characters if its arguments are in range, and refuses them otherwise. -/
def Cuts (draw : Float) (result : Except Cause Value) (inRange : Prop) (n : Int) : Prop :=
  (inRange → ∃ t, result = .ok (.text t) ∧ HasLength draw t n) ∧
    (¬ inRange → ∃ e, result = .error (.invalidArgument e))

section Pieces

variable {s : String} {x y z : Float} {n i : Int} (draw : Float)

theorem length_takeLeft (n : Nat) (s : String) : (takeLeft n s).length = min n s.length := by
  rw [takeLeft, String.length_ofList, List.length_take, String.length_toList]

theorem length_dropLeft (n : Nat) (s : String) : (dropLeft n s).length = s.length - n := by
  rw [dropLeft, String.length_ofList, List.length_drop, String.length_toList]

theorem takeLeft_append_dropLeft (n : Nat) (s : String) : takeLeft n s ++ dropLeft n s = s := by
  rw [takeLeft, dropLeft, ← String.ofList_append, List.take_append_drop, String.ofList_toList]

/-- The number of characters of a text is a number of the language if it was given as one. -/
theorem HasLength.of_whole? {t : String} (whole : whole? x = some n) (same : t.length = n) : HasLength draw t n := by
  subst same
  exact ⟨_, rfl, whole?_ofNat whole⟩

variable (fits : s.length < 2 ^ 63 - 1)

include fits

theorem left_cuts (whole : whole? x = some n) :
    Cuts draw (left.apply draw [.text s, .number x]) (0 ≤ n ∧ n ≤ s.length) n := by
  rw [left_eq draw whole fits]
  refine ⟨fun inside => ?_, fun outside => ?_⟩
  · rw [if_pos inside]
    exact ⟨_, rfl, .of_whole? draw whole (by rw [length_takeLeft]; omega)⟩
  · rw [if_neg outside]
    exact ⟨_, rfl⟩

theorem right_cuts (whole : whole? x = some n) :
    Cuts draw (right.apply draw [.text s, .number x]) (0 ≤ n ∧ n ≤ s.length) n := by
  rw [right_eq draw whole fits]
  refine ⟨fun inside => ?_, fun outside => ?_⟩
  · rw [if_pos inside]
    exact ⟨_, rfl, .of_whole? draw whole (by rw [length_dropLeft]; omega)⟩
  · rw [if_neg outside]
    exact ⟨_, rfl⟩

theorem mid_cuts (start : whole? x = some i) (whole : whole? y = some n) :
    Cuts draw (mid.apply draw [.text s, .number x, .number y])
      ((1 ≤ i ∧ i ≤ max s.length 1) ∧ 0 ≤ n ∧ n ≤ s.length - i + 1) n := by
  rw [mid_eq draw start whole fits]
  refine ⟨fun inside => ?_, fun outside => ?_⟩
  · rw [if_pos inside.1, if_pos inside.2]
    exact ⟨_, rfl, .of_whole? draw whole (by rw [length_takeLeft, length_dropLeft]; omega)⟩
  · split_ifs with first second
    · exact absurd ⟨first, second⟩ outside
    · exact ⟨_, rfl⟩
    · exact ⟨_, rfl⟩

theorem left_append_right {l r : String} (first : whole? x = some n) (second : whole? y = some (s.length - n))
    (hl : left.apply draw [.text s, .number x] = .ok (.text l))
    (hr : right.apply draw [.text s, .number y] = .ok (.text r)) : l ++ r = s := by
  rw [left_eq draw first fits] at hl
  rw [right_eq draw second fits] at hr
  split at hl
  · split at hr
    · cases hl
      cases hr
      have rest : s.length - (s.length - n).toNat = n.toNat := by omega
      rw [rest, takeLeft_append_dropLeft]
    · cases hr
  · cases hl

theorem mid_eq_left_right {v : Value} (start : whole? x = some i) (whole : whole? y = some n)
    (rest : whole? z = some (s.length - i + 1))
    (cut : mid.apply draw [.text s, .number x, .number y] = .ok v) :
    ∃ r, right.apply draw [.text s, .number z] = .ok (.text r) ∧ left.apply draw [.text r, .number y] = .ok v := by
  rw [mid_eq draw start whole fits] at cut
  split at cut
  · rename_i first
    split at cut
    · rename_i second
      cases cut
      have skipped : s.length - (s.length - i + 1).toNat = i.toNat - 1 := by omega
      refine ⟨_, by rw [right_eq draw rest fits, if_pos (by omega)], ?_⟩
      rw [left_eq draw whole (by rw [length_dropLeft]; omega), if_pos (by rw [length_dropLeft]; omega), skipped]
    · cases cut
  · cases cut

end Pieces

/-- For every text that fits into memory, where it is shorter than the largest signed word, and all whole numbers,
`LEFT` and `RIGHT` give a text of the length that they are asked for if there are so many characters, and a text is
its left part followed by the rest on its right. `MID` gives the left part of the right part from its start on, if it
starts within the text, or at one in an empty text, and there are so many characters from there on. `LENGTH` gives
the number that was asked for. All other whole numbers are refused, and whatever the arguments are, no subtraction of
unsigned words goes below zero. -/
theorem slices_fit_together (draw : Float) (s : String) (fits : s.length < 2 ^ 63 - 1) :
    (∀ x n, whole? x = some n →
      Cuts draw (left.apply draw [.text s, .number x]) (0 ≤ n ∧ n ≤ s.length) n ∧
      Cuts draw (right.apply draw [.text s, .number x]) (0 ≤ n ∧ n ≤ s.length) n ∧
      ∀ y l r, whole? y = some (s.length - n) → left.apply draw [.text s, .number x] = .ok (.text l) →
        right.apply draw [.text s, .number y] = .ok (.text r) → l ++ r = s) ∧
    (∀ x i y n, whole? x = some i → whole? y = some n →
      Cuts draw (mid.apply draw [.text s, .number x, .number y])
        ((1 ≤ i ∧ i ≤ max s.length 1) ∧ 0 ≤ n ∧ n ≤ s.length - i + 1) n ∧
      ∀ z v, whole? z = some (s.length - i + 1) → mid.apply draw [.text s, .number x, .number y] = .ok v →
        ∃ r, right.apply draw [.text s, .number z] = .ok (.text r) ∧ left.apply draw [.text r, .number y] = .ok v) ∧
    (∀ v w, (wordRightOf v w).run = some (right.apply draw [v, w])) ∧
    ∀ v w u, (wordMidOf v w u).run = some (mid.apply draw [v, w, u]) := by
  refine ⟨fun x n whole => ⟨left_cuts draw fits whole, right_cuts draw fits whole, fun y l r rest => ?_⟩,
    fun x i y n start whole => ⟨mid_cuts draw fits start whole, fun z v rest => ?_⟩, wordRightOf_eq, wordMidOf_eq⟩
  · exact left_append_right draw fits whole rest
  · exact mid_eq_left_right draw fits start whole rest

/-- A text of characters that take one, two and four bytes is cut, and so is the empty text. -/
theorem accents_cut :
    whole? 2 = some 2 ∧ whole? 1 = some 1 ∧ whole? 1e19 = some (10 ^ 19) ∧ "aé𝄞".length = 3 ∧
      (∃ l r, left.apply 0 [.text "aé𝄞", .number 2] = .ok (.text l) ∧
        right.apply 0 [.text "aé𝄞", .number 1] = .ok (.text r) ∧ l ++ r = "aé𝄞" ∧ HasLength 0 l 2) ∧
      (∃ e, left.apply 0 [.text "aé𝄞", .number 1e19] = .error (.invalidArgument e)) ∧
      (∃ r t, mid.apply 0 [.text "aé𝄞", .number 2, .number 1] = .ok (.text t) ∧
        right.apply 0 [.text "aé𝄞", .number 2] = .ok (.text r) ∧ left.apply 0 [.text r, .number 1] = .ok (.text t)) ∧
      ∃ t, mid.apply 0 [.text "", .number 1, .number 0] = .ok (.text t) ∧ HasLength 0 t 0 := by
  have length : "aé𝄞".length = 3 := by decide +kernel
  have zero : whole? 0 = some 0 := by decide +kernel
  have one : whole? 1 = some 1 := by decide +kernel
  have two : whole? 2 = some 2 := by decide +kernel
  have many : whole? 1e19 = some (10 ^ 19) := by decide +kernel
  obtain ⟨ends, middle, -⟩ := slices_fit_together 0 "aé𝄞" (by rw [length]; decide)
  obtain ⟨-, empty, -⟩ := slices_fit_together 0 "" (by decide)
  rw [length] at ends middle
  obtain ⟨l, hl, measured⟩ := (ends 2 2 two).1.1 (by decide)
  obtain ⟨r, hr, -⟩ := (ends 1 1 one).2.1.1 (by decide)
  obtain ⟨t, cut, -⟩ := (middle 2 2 1 1 two one).1.1 (by decide)
  obtain ⟨rest, skipped, first⟩ := (middle 2 2 1 1 two one).2 2 _ two cut
  exact ⟨two, one, many, length, ⟨l, r, hl, hr, (ends 2 2 two).2.2 1 l r one hl hr, measured⟩,
    (ends 1e19 _ many).1.2 (by decide), ⟨rest, t, cut, skipped, first⟩, (empty 1 1 0 0 one zero).1.1 (by decide)⟩

end Pseudocode.Builtin
