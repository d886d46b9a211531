import Pseudocode.Proofs.Stopping.Truncation

/-!
Three ways in which a script cuts a run short: it asks for a stop when a number of lines has been
emitted, it has no answer to an INPUT, or it refuses to go on after a number of steps. In each of them it
has been shown the beginning of what it would have been shown otherwise.
-/

namespace Pseudocode

open Exec Machine

namespace Script

/-- What a script has been shown stays with it. -/
theorem asked_grows {t t' : Script} (asked : host.Asked t t') :
    t.lines.toList <+: t'.lines.toList ∧ t.prompts.toList <+: t'.prompts.toList ∧
      t.snapshots.toList <+: t'.snapshots.toList := by
  cases asked with
  | emit l => simp [host]
  | requestInput name type =>
    obtain ⟨_ | ⟨text, rest⟩, files, stopAfter, cancelAfter, lines, prompts, snapshots⟩ := t <;> simp [host]
  | step snapshot | requestFile name | cancelled => simp [host]

/-- The first script asks for a stop after `n` lines, of which it has seen as many as `room` allows, and
the second one never does. -/
def Cancelling (n : Nat) (room : Nat → Prop) (s t : Script) : Prop :=
  t = { s with cancelAfter := none } ∧ s.cancelAfter = some n ∧ room s.lines.size

theorem cancelling (n : Nat) :
    Truncation host (Cancelling n (· ≤ n)) (Cancelling n (· < n)) fun s t =>
      s.lines.size = n ∧ s.lines.toList <+: t.lines.toList where
  between := by
    rintro s _ ⟨rfl, after, room⟩
    exact ⟨rfl, after, Nat.le_of_lt room⟩
  poll := by
    rintro s _ ⟨rfl, after, room⟩
    by_cases full : n ≤ s.lines.size
    · exact .inr ⟨by simp [host, after, full], Nat.le_antisymm room full, List.prefix_refl _⟩
    · exact .inl ⟨by simp [host, after, full], rfl, after, Nat.lt_of_not_le full⟩
  step := by
    rintro s _ snapshot ⟨rfl, after, room⟩
    exact .inl ⟨rfl, rfl, after, room⟩
  requestInput := by
    rintro ⟨_ | ⟨text, rest⟩, files, stopAfter, cancelAfter, lines, prompts, snapshots⟩ _ name type
      ⟨rfl, after, room⟩ <;> exact .inl ⟨rfl, rfl, after, room⟩
  requestFile := by
    rintro s _ name ⟨rfl, after, room⟩
    exact .inl ⟨rfl, rfl, after, room⟩
  emit := by
    rintro s _ l ⟨rfl, after, room⟩
    refine ⟨rfl, after, ?_⟩
    simp only [host, Array.size_push]
    omega
  cut := by
    rintro s t t' ⟨size, seen⟩ asked
    exact ⟨size, seen.trans (asked_grows asked).1⟩

/-- The second script has more answers than the first one, which was asked for `count` of them or has
them still. -/
def Supplied (count : Nat) (more : List String) (s t : Script) : Prop :=
  t = { s with inputs := s.inputs ++ more } ∧ count ≤ s.prompts.size + s.inputs.length

theorem supplied (count : Nat) (more : List String) :
    Truncation host (Supplied count more) (Supplied count more) fun s t =>
      count < s.prompts.size ∧ s.lines.toList <+: t.lines.toList ∧ s.prompts.toList <+: t.prompts.toList where
  between same := same
  poll := by
    rintro s _ ⟨rfl, enough⟩
    exact .inl ⟨rfl, rfl, enough⟩
  step := by
    rintro s _ snapshot ⟨rfl, enough⟩
    exact .inl ⟨rfl, rfl, enough⟩
  requestInput := by
    rintro ⟨_ | ⟨text, rest⟩, files, stopAfter, cancelAfter, lines, prompts, snapshots⟩ _ name type
      ⟨rfl, enough⟩
    · -- The first script lacks an answer; the second one may have it.
      cases more with
      | nil => exact .inl ⟨rfl, rfl, by simp [host] at enough ⊢; omega⟩
      | cons text rest =>
        refine .inr ⟨rfl, ?_, List.prefix_refl _, List.prefix_refl _⟩
        simp [host] at enough ⊢
        omega
    · refine .inl ⟨rfl, rfl, ?_⟩
      simp [host] at enough ⊢
      omega
  requestFile := by
    rintro s _ name ⟨rfl, enough⟩
    exact .inl ⟨rfl, rfl, enough⟩
  emit := by
    rintro s _ l ⟨rfl, enough⟩
    exact ⟨rfl, enough⟩
  cut := by
    rintro s t t' ⟨lacks, lines, prompts⟩ asked
    have grows := asked_grows asked
    exact ⟨lacks, lines.trans grows.1, prompts.trans grows.2.1⟩

/-- The first script refuses to go on after more than `k` steps, and the second one never does. -/
def Stepping (k : Nat) (s t : Script) : Prop :=
  t = { s with stopAfter := none } ∧ s.stopAfter = some k ∧ s.snapshots.size ≤ k

theorem stepping (k : Nat) :
    Truncation host (Stepping k) (Stepping k) fun s t =>
      s.snapshots.size = k + 1 ∧ s.lines.toList <+: t.lines.toList ∧
        s.snapshots.toList <+: t.snapshots.toList where
  between same := same
  poll := by
    rintro s _ ⟨rfl, after, room⟩
    exact .inl ⟨rfl, rfl, after, room⟩
  step := by
    rintro s _ snapshot ⟨rfl, after, room⟩
    by_cases full : s.snapshots.size = k
    · refine .inr ⟨by simp [host, after, full], ?_, List.prefix_refl _, List.prefix_refl _⟩
      simp [host, full]
    · have space : s.snapshots.size + 1 ≤ k := by omega
      refine .inl ⟨?_, rfl, after, ?_⟩
      · have goesOn : s.stopAfter.any (· < (s.snapshots.push snapshot).size) = false := by
          rw [after, Option.any_some, Array.size_push, decide_eq_false_iff_not]
          omega
        simp only [host, goesOn, Option.any_none]
      · simpa [host] using space
  requestInput := by
    rintro ⟨_ | ⟨text, rest⟩, files, stopAfter, cancelAfter, lines, prompts, snapshots⟩ _ name type
      ⟨rfl, after, room⟩ <;> exact .inl ⟨rfl, rfl, after, room⟩
  requestFile := by
    rintro s _ name ⟨rfl, after, room⟩
    exact .inl ⟨rfl, rfl, after, room⟩
  emit := by
    rintro s _ l ⟨rfl, after, room⟩
    exact ⟨rfl, after, room⟩
  cut := by
    rintro s t t' ⟨size, lines, snapshots⟩ asked
    have grows := asked_grows asked
    exact ⟨size, lines.trans grows.1, snapshots.trans grows.2.2⟩

end Script

end Pseudocode
