import Pseudocode.Proofs.Grammar.Reading

/-!
What a reader leaves of the tokens when it succeeds: it has taken some from the front (`Takes`). Readers are put
together from a few parts, and there is a rule for each of these.
-/

namespace Pseudocode.Reader

variable {α β : Type} {k m : Nat} {r x : Reader α} {f : α → Reader β} {finish : Location}
  {ts rest : List Token} {t : Token} {a : α}

theorem bind_eq_ok {b : β} (h : (x >>= f) finish ts = .ok (b, rest)) :
    ∃ a mid, x finish ts = .ok (a, mid) ∧ f a finish mid = .ok (b, rest) := by
  cases ran : x finish ts with
  | error e =>
    rw [bind_of_error ran] at h
    cases h
  | ok answer =>
    rw [bind_of_ok ran] at h
    exact ⟨answer.1, answer.2, rfl, h⟩

/-- At least `k` tokens are taken. -/
def Takes (k : Nat) (r : Reader α) : Prop :=
  ∀ finish ts a rest, r finish ts = .ok (a, rest) → ∃ taken, ts = taken ++ rest ∧ k ≤ taken.length

/-- The same where the current token is known. -/
def TakesAt (t : Token) (k : Nat) (r : Reader α) : Prop :=
  ∀ finish ts a rest, r finish (t :: ts) = .ok (a, rest) → ∃ taken, t :: ts = taken ++ rest ∧ k ≤ taken.length

def Fails (r : Reader α) : Prop := ∀ finish ts, ∃ e, r finish ts = .error e

namespace Fails

theorem takes (h : Fails r) (k : Nat) : Takes k r := by
  intro finish ts a rest ran
  obtain ⟨e, failed⟩ := h finish ts
  cases ran.symm.trans failed

theorem failAt (l : Location) (complaint : Complaint) : Fails (failAt l complaint : Reader α) :=
  fun _ _ => ⟨_, rfl⟩

theorem bind (first : Fails x) : Fails (x >>= f) := by
  intro finish ts
  obtain ⟨e, failed⟩ := first finish ts
  exact ⟨e, bind_of_error failed⟩

theorem fail (complaint : Complaint) : Fails (fail complaint : Reader α) := by
  intro finish ts
  cases ts <;> exact ⟨_, rfl⟩

theorem expected (what : String) : Fails (expected what : Reader α) := by
  intro finish ts
  cases ts <;> exact ⟨_, rfl⟩

end Fails

namespace Takes

theorem mono (h : Takes k r) (less : m ≤ k) : Takes m r := by
  intro finish ts a rest ran
  obtain ⟨taken, text, some⟩ := h _ _ _ _ ran
  exact ⟨taken, text, Nat.le_trans less some⟩

theorem known (h : Takes k r) (t : Token) : TakesAt t k r := fun finish ts => h finish (t :: ts)

theorem length_le (h : Takes k x) (ran : x finish ts = .ok (a, rest)) : rest.length + k ≤ ts.length := by
  obtain ⟨taken, rfl, some⟩ := h _ _ _ _ ran
  rw [List.length_append]
  omega

theorem count_le (h : Takes k x) (ran : x finish ts = .ok (a, rest)) : count rest ≤ count ts := by
  obtain ⟨taken, rfl, -⟩ := h _ _ _ _ ran
  exact (List.sublist_append_right taken rest).countP_le

theorem pure (a : α) : Takes 0 (pure a) := by
  intro finish ts b rest ran
  cases ran
  exact ⟨[], rfl, Nat.zero_le _⟩

theorem after (first : Takes k x) (next : ∀ a, Takes (m - k) (f a)) : Takes m (x >>= f) := by
  intro finish ts b rest ran
  obtain ⟨a, mid, read, made⟩ := bind_eq_ok ran
  obtain ⟨taken, rfl, some⟩ := first _ _ _ _ read
  obtain ⟨more, rfl, some'⟩ := next a _ _ _ _ made
  refine ⟨taken ++ more, (List.append_assoc ..).symm, ?_⟩
  rw [List.length_append]
  omega

theorem peekThen {f : Option Token → Reader β} (none : Takes k (f none)) (some : ∀ t, TakesAt t k (f (some t))) :
    Takes k (peek >>= f) := by
  intro finish ts b rest ran
  cases ts with
  | nil => exact none _ _ _ _ ran
  | cons t ts => exact some t _ _ _ _ ran

theorem left : Takes 0 left := by
  intro finish ts a rest ran
  cases ran
  exact ⟨[], rfl, Nat.zero_le _⟩

theorem check (sort : Token → Bool) : Takes 0 (check sort) := peekThen (pure _) fun t => (pure _).known t

theorem place : Takes 0 place := by
  intro finish ts a rest ran
  cases ts <;> cases ran <;> exact ⟨[], rfl, Nat.zero_le _⟩

/-- A token is taken, or something else is tried. -/
theorem acceptThen {sort : Token → Bool} {f : Bool → Reader β} (yes : Takes (k - 1) (f true))
    (no : Takes k (f false)) : Takes k (accept sort >>= f) := by
  intro finish ts b rest ran
  cases here : ts.head?.any sort with
  | false =>
    rw [bind_of_ok (accept_of_not here)] at ran
    exact no _ _ _ _ ran
  | true =>
    cases ts with
    | nil => cases here
    | cons t ts =>
      rw [bind_of_ok (accept_of here)] at ran
      obtain ⟨taken, rfl, some⟩ := yes _ _ _ _ ran
      exact ⟨t :: taken, rfl, Nat.le_succ_of_pred_le some⟩

theorem expectKind (kind : TokenKind) (what : String) : Takes 1 (expectKind kind what) :=
  acceptThen (pure ()) ((Fails.expected _).takes 1)

end Takes

/-- The current token is taken. -/
theorem TakesAt.advance {f : Unit → Reader β} (h : Takes (k - 1) (f ())) : TakesAt t k (advance >>= f) := by
  intro finish ts b rest ran
  rw [bind_of_ok advance_cons] at ran
  obtain ⟨taken, rfl, some⟩ := h _ _ _ _ ran
  exact ⟨t :: taken, rfl, Nat.le_succ_of_pred_le some⟩

theorem TakesAt.ite {c : Prop} [Decidable c] {x y : Reader α} (first : TakesAt t k x) (second : TakesAt t k y) :
    TakesAt t k (if c then x else y) := by
  intro finish ts a rest ran
  split at ran
  · exact first _ _ _ _ ran
  · exact second _ _ _ _ ran

end Pseudocode.Reader
