import Mathlib.Data.List.Induction
import Pseudocode.Trace

/-!
What a trace holds after some operations: the first of them, as many as its limit allows, numbered
from one without gaps, and whether there were more (`recordAll_empty`).
-/

namespace Pseudocode

/-- An operation that is to be recorded. -/
structure Noted where
  operation : Operation
  line : Nat
  details : Details

def Noted.entry (n : Noted) (step : Nat) : TraceEntry := ⟨step, n.operation, n.line, n.details⟩

namespace Trace

def recordAll (t : Trace) (ops : List Noted) : Trace :=
  ops.foldl (fun t n => t.record n.operation n.line n.details) t

/-- The entries of some operations if all of them are kept. -/
def numbered (ops : List Noted) : List TraceEntry := ops.mapIdx fun i n => n.entry (i + 1)

@[simp]
theorem length_numbered (ops : List Noted) : (numbered ops).length = ops.length := by simp [numbered]

theorem step_of_getElem?_numbered {ops : List Noted} {i : Nat} {e : TraceEntry}
    (there : (numbered ops)[i]? = some e) : e.step = i + 1 := by
  simp only [numbered, List.getElem?_mapIdx, Option.map_eq_some_iff] at there
  obtain ⟨n, -, rfl⟩ := there
  rfl

theorem take_numbered (limit : Nat) (ops : List Noted) :
    (numbered ops).take limit = numbered (ops.take limit) := by
  apply List.ext_getElem?
  intro i
  simp only [numbered, List.getElem?_take, List.getElem?_mapIdx]
  split <;> rfl

theorem recordAll_append (t : Trace) (first next : List Noted) :
    t.recordAll (first ++ next) = (t.recordAll first).recordAll next :=
  List.foldl_append

/-- One more operation finds room if and only if there were less than the limit before it. -/
theorem recordAll_empty (limit : Nat) (ops : List Noted) :
    (empty limit).recordAll ops =
      ⟨(numbered (ops.take limit)).toArray, limit, decide (limit < ops.length)⟩ := by
  induction ops using List.reverseRecOn with
  | nil => simp [recordAll, empty, numbered]
  | append_singleton ops n ih =>
    rw [recordAll_append, ih]
    by_cases room : ops.length < limit
    · have kept : ops.take limit = ops := List.take_of_length_le (Nat.le_of_lt room)
      have all : (ops ++ [n]).take limit = ops ++ [n] := List.take_of_length_le (by simpa using Nat.succ_le_of_lt room)
      have before : ¬limit < ops.length := by omega
      have after : ¬limit < (ops ++ [n]).length := by simp; omega
      rw [kept, all]
      simp only [recordAll, List.foldl_cons, List.foldl_nil, record, nextStep?, List.size_toArray,
        length_numbered, room, before, after, if_true]
      simp [numbered, Noted.entry]
    · have first : (ops ++ [n]).take limit = ops.take limit := List.take_append_of_le_length (by omega)
      have full : ¬(numbered (ops.take limit)).length < limit := by simp; omega
      have beyond : limit < (ops ++ [n]).length := by simp; omega
      rw [first]
      simp only [recordAll, List.foldl_cons, List.foldl_nil, record, nextStep?, List.size_toArray,
        full, beyond, if_false, decide_true]

end Trace

end Pseudocode
