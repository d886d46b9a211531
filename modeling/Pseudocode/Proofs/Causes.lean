import Pseudocode.Execution

/-!
What steps complain of. Two causes of errors say that a budget is used up, that of loop passes or that of
nested calls; all others are ordinary. What operators, built-in functions and stores check fails for
ordinary causes only (`Checked`), so that a run which ends with one of the two others has used up a budget.
-/

namespace Pseudocode

/-- The cause is not that a budget is used up. -/
def Cause.Ordinary : Cause → Prop
  | .iterationLimit _ => False
  | .recursionLimit .. => False
  | _ => True

/-- A check that fails for ordinary causes only. -/
def Checked (x : Except Cause α) : Prop := ∀ cause, x = .error cause → cause.Ordinary

namespace Checked

theorem ok (a : α) : Checked (.ok a) := nofun

theorem error {cause : Cause} (ordinary : cause.Ordinary) : Checked (.error cause : Except Cause α) := by
  rintro _ ⟨⟩
  exact ordinary

theorem bind {x : Except Cause α} {f : α → Except Cause β} (first : Checked x) (next : ∀ a, Checked (f a)) :
    Checked (x >>= f) := by
  cases x with
  | ok a => exact next a
  | error cause => exact error (first cause rfl)

end Checked

theorem Value.offsetAddress_checked (a : Nat) (offset : Float) : Checked (Value.offsetAddress a offset) := by
  unfold Value.offsetAddress
  split
  · exact .error trivial
  · split
    · exact .ok _
    · exact .error trivial

namespace BinaryOperator

variable (op : BinaryOperator) (l r : Value)

theorem mismatch_checked : Checked (op.mismatch l r : Except Cause α) := .error trivial

theorem arithmetic_checked {f : Float → Float → Except Cause Float} (checked : ∀ x y, Checked (f x y)) :
    Checked (op.arithmetic f l r) := by
  unfold arithmetic
  split
  · exact (checked _ _).bind fun x => .ok _
  · exact op.mismatch_checked _ _

theorem division_checked (name : String) (f : Float → Float → Float) (x y : Float) :
    Checked (division name f x y) := by
  unfold division
  split
  · exact .error trivial
  · exact .ok _

theorem comparison_checked (test : Ordering → Bool) : Checked (op.comparison test l r) := by
  unfold comparison
  split
  · exact .ok _
  · exact op.mismatch_checked _ _

theorem logicalOperand_checked (v : Value) : Checked (op.logicalOperand v) := by
  unfold logicalOperand
  split
  · exact .ok _
  · exact .error trivial

theorem apply_checked : Checked (op.apply l r) := by
  cases op with
  | add =>
    unfold apply
    dsimp only
    split
    · exact .ok _
    · exact Value.offsetAddress_checked _ _
    · exact Value.offsetAddress_checked _ _
    · exact mismatch_checked _ _ _
  | sub =>
    unfold apply
    dsimp only
    split
    · exact .ok _
    · exact Value.offsetAddress_checked _ _
    · exact .ok _
    · exact mismatch_checked _ _ _
  | mul => exact arithmetic_checked _ _ _ fun _ _ => .ok _
  | div | intDiv | mod => exact arithmetic_checked _ _ _ (division_checked _ _)
  | concat =>
    unfold apply
    dsimp only
    split
    · exact mismatch_checked _ _ _
    · exact .ok _
  | eq | ne => exact .ok _
  | lt | le | gt | ge => exact comparison_checked _ _ _ _
  | and =>
    unfold apply
    dsimp only
    split
    · exact .ok _
    · exact mismatch_checked _ _ _
  | or =>
    unfold apply
    dsimp only
    split
    · exact .ok _
    · exact mismatch_checked _ _ _

end BinaryOperator

theorem UnaryOperator.apply_checked (op : UnaryOperator) (v : Value) : Checked (op.apply v) := by
  unfold apply
  split
  · exact .ok _
  · exact .ok _
  · exact .error trivial
  · exact .error trivial

namespace Builtin

variable (b : Builtin)

theorem refuse_checked (complaint : BuiltinComplaint) : Checked (b.refuse complaint : Except Cause α) :=
  .error trivial

theorem textAt_checked (position : Nat) (v : Value) : Checked (b.textAt position v) := by
  unfold textAt
  split
  · exact .ok _
  · exact .error trivial

theorem numberAt_checked (position : Nat) (v : Value) : Checked (b.numberAt position v) := by
  unfold numberAt
  split
  · exact .ok _
  · exact .error trivial

theorem wholeAt_checked (position : Nat) (v : Value) : Checked (b.wholeAt position v) := by
  refine (b.numberAt_checked position v).bind fun x => ?_
  split
  · exact .ok _
  · exact b.refuse_checked _

theorem countAt_checked (position max : Nat) (v : Value) : Checked (b.countAt position max v) := by
  refine (b.wholeAt_checked position v).bind fun n => ?_
  split
  · exact b.refuse_checked _
  · exact .ok _

theorem midOf_checked (s start n : Value) : Checked (b.midOf s start n) := by
  refine (b.textAt_checked 1 s).bind fun s => (b.wholeAt_checked 2 start).bind fun start => ?_
  split
  · exact (b.refuse_checked _).bind fun _ => (b.countAt_checked 3 _ n).bind fun _ => .ok _
  · exact (b.countAt_checked 3 _ n).bind fun _ => .ok _

theorem roundOf_checked (x places : Value) : Checked (b.roundOf x places) := by
  refine (b.numberAt_checked 1 x).bind fun x => (b.wholeAt_checked 2 places).bind fun places => ?_
  split
  · exact (b.refuse_checked _).bind fun _ => .ok _
  · exact .ok _

theorem stringToNumberOf_checked (s : Value) : Checked (b.stringToNumberOf s) := by
  refine (b.textAt_checked 1 s).bind fun s => ?_
  split
  · exact .ok _
  · exact b.refuse_checked _

theorem codeOf_checked (s : Value) : Checked (b.codeOf s) := by
  refine (b.textAt_checked 1 s).bind fun s => ?_
  split
  · exact .ok _
  · exact b.refuse_checked _

theorem charOf_checked (n : Value) : Checked (b.charOf n) := by
  refine (b.wholeAt_checked 1 n).bind fun n => ?_
  split
  · exact .ok _
  · exact b.refuse_checked _

theorem randOf_checked (draw : Float) (upper : Value) : Checked (b.randOf draw upper) := by
  refine (b.numberAt_checked 1 upper).bind fun upper => ?_
  split
  · exact .ok _
  · exact b.refuse_checked _

theorem apply_checked (draw : Float) (args : List Value) : Checked (b.apply draw args) := by
  unfold apply
  split
  · exact (textAt_checked _ 1 _).bind fun _ => .ok _
  · exact (textAt_checked _ 1 _).bind fun s => (countAt_checked _ 2 _ _).bind fun _ => .ok _
  · exact (textAt_checked _ 1 _).bind fun s => (countAt_checked _ 2 _ _).bind fun _ => .ok _
  · exact midOf_checked _ _ _ _
  · exact (textAt_checked _ 1 _).bind fun _ => .ok _
  · exact (textAt_checked _ 1 _).bind fun _ => .ok _
  · exact (numberAt_checked _ 1 _).bind fun _ => .ok _
  · exact roundOf_checked _ _ _
  · exact (numberAt_checked _ 1 _).bind fun _ => .ok _
  · exact stringToNumberOf_checked _ _
  · exact (textAt_checked _ 1 _).bind fun _ => .ok _
  · exact codeOf_checked _ _
  · exact charOf_checked _ _
  · exact randOf_checked _ _ _
  · exact .ok _
  · exact .error trivial

end Builtin

section Stores

theorem checkFit_checked (name : String) (type : DataType) (v : Value) : Checked (checkFit name type v) := by
  unfold checkFit
  split
  · exact .ok _
  · split
    · exact .error trivial
    · exact .error trivial

theorem locate_checked (name : String) (g : Grid Value) (indices : List Int) :
    Checked (locate name g indices) := by
  unfold locate
  split
  · split
    · exact .ok _
    · exact .error trivial
  · exact .error trivial

theorem element_checked (v : Variable) (name : String) (indices : List Int) :
    Checked (element v name indices) := by
  unfold element
  split
  · refine (locate_checked name _ indices).bind fun i => ?_
    split
    · exact .ok _
    · exact .error trivial
  · exact .error trivial

theorem planElement_checked (v : Variable) (name : String) (indices : List Int) (value : Value) :
    Checked (planElement v name indices value) := by
  unfold planElement
  split
  · exact .error trivial
  · split
    · refine (locate_checked name _ indices).bind fun i => ?_
      exact (checkFit_checked _ _ value).bind fun _ => .ok _
    · exact .error trivial

theorem Exec.startValue_checked (name : String) (type : DataType) : Checked (startValue name type) := by
  unfold startValue
  split
  · split
    · exact .error trivial
    · split
      · exact .ok _
      · exact .error trivial
  · exact .ok _

end Stores

namespace Exec

theorem indexOf_checked (v : Value) : Checked (indexOf v) := by
  unfold indexOf
  split
  · split
    · exact .ok _
    · exact .error trivial
  · exact .error trivial

theorem callee_checked (ctx : Context σ) (name : String) : Checked (callee ctx name) := by
  unfold callee
  split
  · split
    · exact .ok _
    · exact .error trivial
  · exact .ok _
  · exact .ok _
  · exact .error trivial

/-- A function that a name stands for is defined under it. -/
theorem callee_defined {ctx : Context σ} {name : String} {found : Callee} (called : callee ctx name = .ok found)
    (d : Definition Stmt) (function : found = .function d) : ctx.definition? name = some d := by
  subst function
  unfold callee at called
  split at called
  · split at called <;> cases called
    assumption
  · rename_i d' b defined _
    rw [defined]
    cases isFunction : d'.isFunction <;> simp [isFunction] at called
    rw [called]
  · cases called
  · cases called

end Exec

end Pseudocode
