import Mathlib.Data.List.Basic

/-!
Tables as lists of keys with what belongs to them, of which the first entry of a key counts.
-/

namespace Pseudocode

variable {κ β : Type} [BEq κ] [LawfulBEq κ] [DecidableEq κ] {l : List (κ × β)} {key : κ} {b : β}

theorem lookup_cons (key other : κ) (b : β) (rest : List (κ × β)) :
    ((key, b) :: rest).lookup other = if other = key then some b else rest.lookup other := by
  by_cases same : other = key
  · simp [same]
  · rw [List.lookup_cons, beq_false_of_ne same, if_neg same]

theorem lookup_of_mem (distinct : (l.map Prod.fst).Nodup) (mem : (key, b) ∈ l) : l.lookup key = some b := by
  induction l with
  | nil => cases mem
  | cons entry rest ih =>
    obtain ⟨fresh, distinct⟩ := List.nodup_cons.1 distinct
    rw [lookup_cons]
    rcases List.mem_cons.1 mem with rfl | mem
    · exact if_pos rfl
    · have other : key ≠ entry.1 := fun same => fresh (same ▸ List.mem_map_of_mem mem)
      rw [if_neg other]
      exact ih distinct mem

/-- What belongs to a key is dropped. -/
theorem lookup_filter_ne (l : List (κ × β)) (key other : κ) :
    (l.filter (·.1 != key)).lookup other = if other = key then none else l.lookup other := by
  induction l with
  | nil => simp
  | cons entry rest ih =>
    obtain ⟨first, b⟩ := entry
    by_cases drop : first = key
    · rw [List.filter_cons_of_neg (by simp [drop]), ih, lookup_cons, drop]
      split <;> rfl
    · rw [List.filter_cons_of_pos (by simp [drop]), lookup_cons, lookup_cons, ih]
      by_cases here : other = first
      · rw [if_pos here, if_neg (here ▸ drop), if_pos here]
      · rw [if_neg here, if_neg here]

/-- What belongs to a key is replaced, or added behind the rest. -/
structure Puts (key : κ) (b : β) (put : List (κ × β) → List (κ × β)) : Prop where
  nil : put [] = [(key, b)]
  cons (entry : κ × β) (rest : List (κ × β)) :
    put (entry :: rest) = if entry.1 = key then (key, b) :: rest else entry :: put rest

namespace Puts

variable {put : List (κ × β) → List (κ × β)} (puts : Puts key b put)

include puts

theorem lookup (l : List (κ × β)) (other : κ) :
    (put l).lookup other = if other = key then some b else l.lookup other := by
  induction l with
  | nil => rw [puts.nil, lookup_cons]
  | cons entry rest ih =>
    obtain ⟨first, old⟩ := entry
    rw [puts.cons]
    by_cases here : first = key
    · by_cases same : other = key <;> simp [lookup_cons, here, same]
    · simp only [here, if_false, lookup_cons, ih]
      by_cases same : other = key
      · simp [same, Ne.symm here]
      · simp [same]

theorem keys (l : List (κ × β)) :
    (put l).map Prod.fst = if key ∈ l.map Prod.fst then l.map Prod.fst else l.map Prod.fst ++ [key] := by
  induction l with
  | nil => simp [puts.nil]
  | cons entry rest ih =>
    rw [puts.cons]
    by_cases here : entry.1 = key
    · simp [here]
    · by_cases there : key ∈ rest.map Prod.fst
      · rw [if_pos there] at ih
        simp [here, Ne.symm here, ih, there]
      · rw [if_neg there] at ih
        simp [here, Ne.symm here, ih, there]

theorem nodup_keys (distinct : (l.map Prod.fst).Nodup) : ((put l).map Prod.fst).Nodup := by
  rw [puts.keys]
  split
  · exact distinct
  case isFalse fresh =>
    refine List.nodup_append.2 ⟨distinct, List.nodup_cons.2 ⟨List.not_mem_nil, List.nodup_nil⟩, ?_⟩
    rintro _ mem _ last rfl
    exact fresh (List.mem_singleton.1 last ▸ mem)

end Puts

end Pseudocode
