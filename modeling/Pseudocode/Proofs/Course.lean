import Pseudocode.Proofs.Observation

/-!
The course of a run: the states at the boundaries of its statements, in the order in which it goes through
them. A relation that every step establishes between the states in which it begins and ends, and that the
entering and the leaving of calls establish as well, holds between each of these states and all that come
later (`Advancing.pairwise`).
-/

namespace Pseudocode

open Exec Semantics

variable {σ : Type} {α β : Type}

/-- A frame is closed however its body has ended. -/
theorem Exec.final_closeCall (line : Nat) (result : Except RuntimeError Flow) (m : Machine σ) :
    final (closeCall line result m) = final (leave line m) := by
  unfold closeCall
  rw [bind_of_ok (rfl : currentLine m = .ok m.line m)]
  rw [bind_apply]
  generalize leave line m = r
  cases r with
  | ok _ m' => cases result <;> rfl
  | error e m' => rfl

/-- All steps establish a relation between the states in which they begin and end, and so do the entering and
the leaving of calls. -/
structure Advancing (ctx : Context σ) (κ : Knowledge (Machine σ)) (Inv : Machine σ → Prop)
    (R : Machine σ → Machine σ → Prop) : Prop where
  kept : Kept ctx κ Inv
  refl (m : Machine σ) : R m m
  trans {a b c : Machine σ} : R a b → R b c → R a c
  later {m m' : Machine σ} : κ.Later m m' → R m m'
  enter {m m' : Machine σ} {d : Definition Stmt} {kind : CallableKind} {bindings : List Binding} {line : Nat} :
    Inv m → κ.bindings m d.params bindings → enter d kind bindings line m = .ok () m' → R m m'
  leave {m : Machine σ} (line : Nat) : Inv m → R m (final (leave line m))

namespace Watch

/-- A computation keeps a property, and each state that it goes through is related to all later ones. -/
def Ordered (κ : Knowledge (Machine σ)) (Inv : Machine σ → Prop) (R : Machine σ → Machine σ → Prop)
    (m : Machine σ) (Q : Machine σ → α → Prop) (x : Watch σ α) : Prop :=
  Keeps κ Inv Inv m Q x ∧ (Inv m → (m :: (x m).states).Pairwise R)

end Watch

namespace Advancing

variable {ctx : Context σ} {κ : Knowledge (Machine σ)} {Inv : Machine σ → Prop}
  {R : Machine σ → Machine σ → Prop} (h : Advancing ctx κ Inv R) {m : Machine σ}

include h

/-- Two courses of which the second begins where the first ends are one. -/
theorem through {l l' : List (Machine σ)} (first : (l ++ [m]).Pairwise R) (next : (m :: l').Pairwise R) :
    (l ++ l').Pairwise R := by
  obtain ⟨before, -, reach⟩ := List.pairwise_append.1 first
  obtain ⟨leads, behind⟩ := List.pairwise_cons.1 next
  refine List.pairwise_append.2 ⟨before, behind, fun a member c member' => ?_⟩
  exact h.trans (reach a member m List.mem_cons_self) (leads c member')

theorem lift {Q : Machine σ → α → Prop} {x : Exec σ α} (keeps : Keeps κ Inv m Q x) :
    Watch.Ordered κ Inv R m Q (.lift x) := by
  refine ⟨.lift keeps, fun inv => List.pairwise_pair.2 ?_⟩
  exact h.later (keeps inv).final.2

theorem bind {P : Machine σ → α → Prop} {Q : Machine σ → β → Prop} {x : Watch σ α} {f : α → Watch σ β}
    (first : Watch.Ordered κ Inv R m P x)
    (next : ∀ m' a, κ.Later m m' → P m' a → Watch.Ordered κ Inv R m' Q (f a)) :
    Watch.Ordered κ Inv R m Q (x >>= f) := by
  refine ⟨first.1.bind fun m' a later known => (next m' a later known).1, fun inv => ?_⟩
  obtain ⟨-, ended⟩ := first.1 inv
  have course := first.2 inv
  rcases run : x m with ⟨before, _ | ⟨a, m'⟩ | ⟨e, m'⟩⟩
  · rw [run] at course
    rw [Watch.bind_of_none run]
    exact course
  · rw [run] at course ended
    rw [Watch.bind_of_ok run]
    obtain ⟨⟨there, later⟩, known⟩ := ended _ rfl
    have rest := (next m' a later known).2 there
    have whole : ((m :: before) ++ (f a m').states).Pairwise R := h.through course rest
    simpa [Observed.states] using whole
  · rw [run] at course
    rw [Watch.bind_of_error run]
    exact course

theorem composes : Watch.Composes κ fun _ m Q x _ => Watch.Ordered κ Inv R m Q x where
  exhausted := ⟨.exhausted, fun _ => List.pairwise_singleton R _⟩
  pure known := ⟨.pure known, fun _ => List.pairwise_pair.2 (h.refl _)⟩
  bind := h.bind

/-- The first and the last state of a statement are seen twice. -/
theorem between {Q : Machine σ → Flow → Prop} {x : Watch σ Flow} (ordered : Watch.Ordered κ Inv R m Q x) :
    Watch.Ordered κ Inv R m Q (.between x) := by
  refine ⟨ordered.1.between fun _ => id, fun inv => ?_⟩
  have course := ordered.2 inv
  have begun : (m :: m :: (x m).states).Pairwise R := by
    obtain ⟨leads, -⟩ := List.pairwise_cons.1 course
    exact List.pairwise_cons.2 ⟨List.forall_mem_cons.2 ⟨h.refl m, leads⟩, course⟩
  rcases run : x m with ⟨seen, _ | r⟩
  · rw [run] at begun
    simpa [Watch.between, run, Observed.states] using begun
  · rw [run] at begun
    have again : [final r, final r, final r].Pairwise R := by simp [h.refl]
    have ended : ((m :: m :: seen) ++ [final r, final r]).Pairwise R := h.through begun again
    simpa [Watch.between, run, Observed.states] using ended

theorem runBody {body : Access → List Stmt → Watch σ Flow} {mark : Watch σ Flow → Watch σ Flow} {access : Access}
    (onBody : ∀ m, ∀ sts, Watch.Ordered κ Inv R m κ.flow (body access sts)) (fuel : Nat)
    {d : Definition Stmt} {bindings : List Binding} (kind : CallableKind) (line : Nat)
    (known : κ.bindings m d.params bindings) :
    Watch.Ordered κ Inv R m (fun m' ended => κ.flow m' ended.1)
      ({ Watch.semantics ctx.config fuel body with boundary := mark }.runBody access d kind bindings
        line) := by
  refine ⟨h.kept.runBody (fun m _ sts => (onBody m sts).1) fuel kind line known, fun inv => ?_⟩
  obtain ⟨m₁, entered, there, -⟩ := h.kept.call kind line known inv
  obtain ⟨keeps, ordered⟩ := onBody m₁ d.body
  obtain ⟨-, ended⟩ := keeps there
  have first : [m, m₁].Pairwise R := List.pairwise_pair.2 (h.enter inv known entered)
  have inside : ([m] ++ (body access d.body m₁).states).Pairwise R := h.through first (ordered there)
  rw [Watch.runBody_eq, entered]
  dsimp only
  rcases run : body access d.body m₁ with ⟨seen, _ | r⟩
  · rw [run] at inside
    exact inside
  · rw [run] at inside ended
    have closed : R (final r) (final (Exec.leave line (final r))) := h.leave line (ended r rfl).final.1
    have last : ((m :: seen) ++ [final (Exec.leave line (final r))]).Pairwise R :=
      h.through inside (List.pairwise_pair.2 closed)
    simpa [Observed.states, final_closeCall] using last

theorem watching (fuel : Nat) :
    SelfCongruence (watching ctx fuel) ctx
      (.onLeft (Exec.Keeps κ Inv)) (.onLeft (Watch.Ordered κ Inv R)) κ Eq True := by
  have level {body : Access → List Stmt → Watch σ Flow} (fuel : Nat)
      (onBody : ∀ access m sts, Watch.Ordered κ Inv R m κ.flow (body access sts)) :
      SelfCongruence (Watch.semantics ctx.config fuel body) ctx
        (.onLeft (Exec.Keeps κ Inv)) (.onLeft (Watch.Ordered κ Inv R)) κ Eq True := by
    refine h.composes.semantics fuel h.kept.steps h.lift h.between (fun m line => h.lift (h.kept.tick m line)) ?_ ?_
    · intro m _ d _ arguments line
      exact h.lift (Watch.permit_keeps ctx.config d arguments line)
    · intro m _ access _ _ d kind bindings line known
      exact h.runBody (onBody access) fuel kind line known
  induction fuel with
  | zero => exact level 0 fun _ _ _ => h.composes.exhausted
  | succ fuel ih => exact level (fuel + 1) fun _ m sts => ih.execBlock rfl m sts

end Advancing

/-- Each state of a run is related to all later ones. -/
theorem Advancing.pairwise {p : Program} {host : Host σ} {config : Config} {draws : Draws} {state : σ}
    {κ : Knowledge (Machine σ)} {Inv : Machine σ → Prop} {R : Machine σ → Machine σ → Prop}
    (h : Advancing ⟨host, config, p.definitions, none⟩ κ Inv R) (initial : Inv (.initial config draws state))
    (fuel : Nat) : (p.observe host config fuel (.initial config draws state)).states.Pairwise R :=
  (List.pairwise_cons.1 (((h.watching fuel).exec rfl _ p).2 initial)).2

end Pseudocode
