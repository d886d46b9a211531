import Pseudocode.Proofs.Attribution.Traversal
import Pseudocode.Proofs.Stopping.Obedience

/-!
The lines of a run that is watched where statements begin. Within a call, the innermost frame holds the line of
the statement of its own that has begun last (`Ended`); calls that are nested in it leave the frame alone, but
not the current line. All lines, and all that are blamed, are lines of which `S` holds if the nodes of the
program stand on such lines.
-/

namespace Pseudocode

open Exec Semantics Machine

variable {σ : Type} {α β : Type} {S : Nat → Prop} {Own : Stmt → Prop} {m : Machine σ}

namespace CallStack

@[simp]
theorem setLine_setLine (s : CallStack) (a b : Nat) : (s.setLine a).setLine b = s.setLine b := by
  rcases s with ⟨_ | ⟨f, rest⟩⟩ <;> rfl

@[simp]
theorem pop_push (s : CallStack) (f : Frame) : (s.push f).pop = s := rfl

@[simp]
theorem pop_setLine (s : CallStack) (line : Nat) : (s.setLine line).pop = s.pop := by
  rcases s with ⟨_ | ⟨f, rest⟩⟩ <;> rfl

end CallStack

namespace Exec

/-- A statement begins on its own line, and fails for no other. -/
theorem interrupted_line (ctx : Context σ) (access : Access) {st : Stmt} (here : S st.line) (m : Machine σ) :
    Ends (SamePlace { m with line := st.line, calls := m.calls.setLine st.line }) (fun _ => True)
        (interrupted ctx access st m) ∧
      ∀ e, outcome (interrupted ctx access st m) = .error e → S e.line := by
  let begun : Machine σ := { m with line := st.line, calls := m.calls.setLine st.line }
  have marks : (modify fun m => { m with line := st.line, calls := m.calls.setLine st.line } : Exec σ Unit) m =
    .ok () begun := rfl
  unfold interrupted
  rw [bind_of_ok marks]
  refine (Blames.bind (.checkBudget here ctx.config) fun _ _ => ?_ : Blames S (fun _ => True) _) begun
  cases access with
  | denied => exact .pure trivial
  | granted =>
    refine .bind (.change fun _ => ⟨rfl, rfl⟩) fun stopped _ => .ite (.pure trivial) (.ite ?_ (.pure trivial))
    exact .bind (.change fun _ => ⟨rfl, rfl⟩) fun _ _ => .pure trivial

/-- A call is always entered. -/
theorem enter_ok (d : Definition Stmt) (kind : CallableKind) (bindings : List Binding) (line : Nat)
    (m : Machine σ) :
    ∃ m₁, enter d kind bindings line m = .ok () m₁ ∧ m₁.line = m.line ∧
      m₁.calls = m.calls.push ⟨d.name, d.location.line, kind⟩ := by
  obtain ⟨t, entered⟩ := enter_eq d kind bindings line m
  exact ⟨_, entered, rfl, rfl⟩

/-- A call that is left gives the current line, and fails as its body did or for the line of the call. -/
theorem closeCall_line {line : Nat} (here : S line) {result : Except RuntimeError Flow}
    (inside : ∀ e, result = .error e → S e.line) (m : Machine σ) :
    Ends (SamePlace { m with calls := m.calls.pop }) (fun ended => ended.2 = m.line ∧ result = .ok ended.1)
        (closeCall line result m) ∧
      ∀ e, outcome (closeCall line result m) = .error e → S e.line := by
  let closed : Machine σ := { m with calls := m.calls.pop }
  have last : currentLine m = .ok m.line m := rfl
  have pops : (modify fun m => { m with calls := m.calls.pop } : Exec σ Unit) m = .ok () closed := rfl
  unfold closeCall leave
  rw [bind_of_ok last, bind_assoc, bind_of_ok pops]
  have closes := (Blames.memorySteps (σ := σ)).closeScope line here (Blames.alter fun _ => ⟨rfl, rfl⟩)
  refine (Blames.bind closes fun _ _ => ?_ :
    Blames S (fun ended : Flow × Nat => ended.2 = m.line ∧ result = .ok ended.1) _) closed
  cases result with
  | ok flow => exact .pure ⟨rfl, rfl⟩
  | error e => exact .fail (inside e rfl) e.cause

end Exec

/-- How an expression has ended that was begun in a state: the frames are as before, and the current line can
only be another if statements have begun meanwhile. -/
structure Evaluated (S : Nat → Prop) (Q : α → Prop) (m : Machine σ) (seen : List (Machine σ))
    (r : EStateM.Result RuntimeError (Machine σ) α) : Prop where
  calls : (final r).calls = m.calls
  line : S (final r).line
  still : seen = [] → (final r).line = m.line
  blamed : ∀ e, outcome r = .error e → S e.line
  value : ∀ a, outcome r = .ok a → Q a

/-- How statements have ended that were begun in a state, of which `last` has begun last: the innermost frame
holds its line, and that is the current line unless statements have begun in calls meanwhile. Only a RETURN
returns. -/
structure Ended (S : Nat → Prop) (last : Stmt) (m : Machine σ) (seen : List (Machine σ))
    (r : EStateM.Result RuntimeError (Machine σ) Flow) : Prop where
  calls : (final r).calls = m.calls.setLine last.line
  line : S (final r).line
  latest : ∀ b, seen.getLast? = some b → b.calls.depth = m.calls.depth → (final r).line = last.line
  blamed : ∀ e, outcome r = .error e → S e.line
  returned : ∀ v, outcome r = .ok (.returned v) → last.isReturn = true

/-- Statements begin in an expression only in calls that it makes. -/
def Evaluates (S : Nat → Prop) (Q : α → Prop) (x : Watch σ α) : Prop :=
  ∀ m, S m.line → (∀ b ∈ (x m).seen, m.calls.depth < b.calls.depth) ∧
    ∀ r, (x m).result = some r → Evaluated S Q m (x m).seen r

/-- What is left to do when `st` is the statement that has begun last. -/
def Proceeds (S : Nat → Prop) (Own : Stmt → Prop) (st : Stmt) (x : Watch σ Flow) : Prop :=
  ∀ m, S m.line → m.calls.setLine st.line = m.calls →
    (∀ b ∈ (x m).seen, m.calls.depth ≤ b.calls.depth) ∧
      ∀ r, (x m).result = some r → ∃ last, Own last ∧ Ended S last m (x m).seen r ∧
        ((x m).seen = [] → last = st ∧ (final r).line = m.line)

/-- Whole statements: if none has begun, nothing has happened. -/
def Executes (S : Nat → Prop) (Own : Stmt → Prop) (x : Watch σ Flow) : Prop :=
  ∀ m, (∀ b ∈ (x m).seen, m.calls.depth ≤ b.calls.depth) ∧
    ∀ r, (x m).result = some r →
      if (x m).seen = [] then r = .ok .normal m else ∃ last, Own last ∧ Ended S last m (x m).seen r

/-- An error is the same whatever was to be evaluated. -/
theorem Evaluated.error {Q : α → Prop} {R : β → Prop} {seen : List (Machine σ)} {e : RuntimeError} {m' : Machine σ}
    (h : Evaluated S Q m seen (.error e m')) : Evaluated S R m seen (.error e m') := by
  refine ⟨h.calls, h.line, h.still, fun e' failed => ?_, nofun⟩
  cases failed
  exact h.blamed e rfl

/-- While an expression of a statement is evaluated, no other statement of the block begins. -/
theorem Evaluated.ended {Q : Flow → Prop} {st : Stmt} {seen : List (Machine σ)}
    {r : EStateM.Result RuntimeError (Machine σ) Flow} (h : Evaluated S Q m seen r)
    (deeper : ∀ b ∈ seen, m.calls.depth < b.calls.depth) (here : m.calls.setLine st.line = m.calls)
    (returned : ∀ v, outcome r = .ok (.returned v) → st.isReturn = true) : Ended S st m seen r := by
  refine ⟨h.calls.trans here.symm, h.line, fun b latest same => ?_, h.blamed, returned⟩
  exact absurd same (Nat.ne_of_gt (deeper b (List.mem_of_getLast? latest)))

/-- Statements go on where others have ended. -/
theorem Ended.andThen {a b : Stmt} {before after : List (Machine σ)}
    {x r : EStateM.Result RuntimeError (Machine σ) Flow}
    (first : Ended S a m before x) (next : Ended S b (final x) after r)
    (still : after = [] → b = a ∧ (final r).line = (final x).line) : Ended S b m (before ++ after) r := by
  refine ⟨by rw [next.calls, first.calls, CallStack.setLine_setLine], next.line, fun c latest same => ?_,
    next.blamed, next.returned⟩
  have depth : (final x).calls.depth = m.calls.depth := by rw [first.calls, CallStack.depth_setLine]
  rw [List.getLast?_append] at latest
  cases there : after.getLast? with
  | some c' =>
    rw [there] at latest
    cases latest
    exact next.latest c there (same.trans depth.symm)
  | none =>
    obtain ⟨rfl, line⟩ := still (List.getLast?_eq_none_iff.1 there)
    rw [there] at latest
    rw [line]
    exact first.latest c latest same

namespace Evaluates

variable {Q : α → Prop}

theorem lift {x : Exec σ α} (h : Blames S Q x) : Evaluates S Q (Watch.lift x) := by
  intro m inside
  refine ⟨nofun, fun r ended => ?_⟩
  cases ended
  obtain ⟨ended, blamed⟩ := h m
  refine ⟨ended.final.calls, ended.final.line ▸ inside, fun _ => ended.final.line, blamed, fun a given => ?_⟩
  cases run : x m with
  | ok b m' =>
    rw [run] at ended given
    cases given
    exact ended.2
  | error e m' =>
    rw [run] at given
    cases given

theorem pure {a : α} (known : Q a) : Evaluates S Q (pure a : Watch σ α) := lift (.pure known)

theorem bind {P : α → Prop} {Q : β → Prop} {x : Watch σ α} {f : α → Watch σ β} (first : Evaluates S P x)
    (next : ∀ a, P a → Evaluates S Q (f a)) : Evaluates S Q (x >>= f) := by
  intro m inside
  obtain ⟨deeper, ended⟩ := first m inside
  rcases run : x m with ⟨before, _ | ⟨a, m'⟩ | ⟨e, m'⟩⟩
  · rw [run] at deeper
    rw [Watch.bind_of_none run]
    exact ⟨deeper, fun _ never => nomatch never⟩
  · rw [run] at deeper ended
    rw [Watch.bind_of_ok run]
    have here := ended _ rfl
    obtain ⟨deeper', rest⟩ := next a (here.value a rfl) m' here.line
    have calls : m'.calls = m.calls := here.calls
    rw [calls] at deeper'
    refine ⟨List.forall_mem_append.2 ⟨deeper, deeper'⟩, fun r last => ?_⟩
    have there := rest r last
    refine ⟨there.calls.trans calls, there.line, fun none => ?_, there.blamed, there.value⟩
    obtain ⟨none, none'⟩ := List.append_eq_nil_iff.1 none
    exact (there.still none').trans (here.still none)
  · rw [run] at deeper ended
    rw [Watch.bind_of_error run]
    refine ⟨deeper, fun r last => ?_⟩
    cases last
    exact (ended _ rfl).error

end Evaluates

namespace Proceeds

variable {st : Stmt} (own : Own st)

include own

theorem last {x : Watch σ Flow} (h : Evaluates S (fun flow => ∀ v, flow ≠ .returned v) x) : Proceeds S Own st x := by
  intro m inside here
  obtain ⟨deeper, ended⟩ := h m inside
  refine ⟨fun b mem => Nat.le_of_lt (deeper b mem), fun r result => ⟨st, own, ?_, fun none => ?_⟩⟩
  · exact (ended r result).ended deeper here fun v given => absurd rfl ((ended r result).value _ given v)
  · exact ⟨rfl, (ended r result).still none⟩

theorem returned (v : Option Value) (returns : st.isReturn = true) :
    Proceeds S Own st (pure (.returned v) : Watch σ Flow) := by
  intro m inside here
  refine ⟨nofun, fun r result => ?_⟩
  cases result
  have ended : Ended S st m [] (.ok (.returned v) m) :=
    ⟨here.symm, inside, (fun _ never => nomatch never), blames_nothing, fun _ _ => returns⟩
  exact ⟨st, own, ended, fun _ => ⟨rfl, rfl⟩⟩

theorem bind {P : α → Prop} {x : Watch σ α} {f : α → Watch σ Flow} (first : Evaluates S P x)
    (next : ∀ a, P a → Proceeds S Own st (f a)) : Proceeds S Own st (x >>= f) := by
  intro m inside here
  obtain ⟨deeper, ended⟩ := first m inside
  have below : ∀ b ∈ (x m).seen, m.calls.depth ≤ b.calls.depth := fun b mem => Nat.le_of_lt (deeper b mem)
  rcases run : x m with ⟨before, _ | ⟨a, m'⟩ | ⟨e, m'⟩⟩
  · rw [run] at below
    rw [Watch.bind_of_none run]
    exact ⟨below, fun _ never => nomatch never⟩
  · rw [run] at deeper ended below
    rw [Watch.bind_of_ok run]
    have first := ended _ rfl
    have calls : m'.calls = m.calls := first.calls
    obtain ⟨below', rest⟩ := next a (first.value a rfl) m' first.line (by rw [calls]; exact here)
    rw [calls] at below'
    refine ⟨List.forall_mem_append.2 ⟨below, below'⟩, fun r result => ?_⟩
    obtain ⟨last, own', there, still⟩ := rest r result
    have evaluated : Ended S st m before (.ok .normal m' : EStateM.Result RuntimeError (Machine σ) Flow) :=
      ⟨calls.trans here.symm, first.line, fun b latest same =>
        absurd same (Nat.ne_of_gt (deeper b (List.mem_of_getLast? latest))), blames_nothing,
        fun _ never => nomatch never⟩
    refine ⟨last, own', evaluated.andThen there still, fun none => ?_⟩
    obtain ⟨none, none'⟩ := List.append_eq_nil_iff.1 none
    exact ⟨(still none').1, (still none').2.trans (first.still none)⟩
  · rw [run] at deeper ended below
    rw [Watch.bind_of_error run]
    refine ⟨below, fun r result => ?_⟩
    cases result
    have first := ended _ rfl
    exact ⟨st, own, (first.error (R := fun _ => True)).ended deeper here nofun, fun none => ⟨rfl, first.still none⟩⟩

omit own

/-- Other statements follow, whichever has begun last. -/
theorem followedBy {x y : Watch σ Flow} (first : Proceeds S Own st x) (next : ∀ st, Own st → Proceeds S Own st y) :
    Proceeds S Own st (do let flow ← x; Semantics.followedBy flow y) := by
  intro m inside here
  rcases Watch.followedBy_cases x y m with same | ⟨before, m', run, same⟩
  · rw [same]
    exact first m inside here
  · rw [same]
    obtain ⟨below, ended⟩ := first m inside here
    rw [run] at below ended
    obtain ⟨last, own, first, still⟩ := ended _ rfl
    have calls : m'.calls = m.calls.setLine last.line := first.calls
    obtain ⟨below', rest⟩ := next last own m' first.line (by rw [calls, CallStack.setLine_setLine])
    rw [calls, CallStack.depth_setLine] at below'
    refine ⟨List.forall_mem_append.2 ⟨below, below'⟩, fun r result => ?_⟩
    obtain ⟨last', own', there, still'⟩ := rest r result
    refine ⟨last', own', first.andThen there still', fun none => ?_⟩
    obtain ⟨none, none'⟩ := List.append_eq_nil_iff.1 none
    exact ⟨(still' none').1.trans (still none).1, (still' none').2.trans (still none).2⟩

/-- Whole statements that follow the beginning of another. -/
theorem inner (own : Own st) {x : Watch σ Flow} (h : Executes S Own x) : Proceeds S Own st x := by
  intro m inside here
  obtain ⟨below, ended⟩ := h m
  refine ⟨below, fun r result => ?_⟩
  have there := ended r result
  split at there
  case isTrue none =>
    subst there
    rw [none]
    have ended : Ended S st m [] (.ok .normal m) :=
      ⟨here.symm, inside, (fun _ never => nomatch never), blames_nothing, fun _ never => nomatch never⟩
    exact ⟨st, own, ended, fun _ => ⟨rfl, rfl⟩⟩
  case isFalse some =>
    obtain ⟨last, own', there⟩ := there
    exact ⟨last, own', there, fun none => absurd none some⟩

end Proceeds

namespace Executes

theorem exhausted : Executes S Own (Watch.exhausted : Watch σ Flow) := fun _ =>
  ⟨nofun, fun _ never => nomatch never⟩

theorem normal : Executes S Own (pure .normal : Watch σ Flow) := by
  refine fun m => ⟨nofun, fun r result => ?_⟩
  cases result
  rfl

theorem followedBy {x y : Watch σ Flow} (first : Executes S Own x) (next : Executes S Own y) :
    Executes S Own (do let flow ← x; Semantics.followedBy flow y) := by
  intro m
  rcases Watch.followedBy_cases x y m with same | ⟨before, m', run, same⟩
  · rw [same]
    exact first m
  · rw [same]
    obtain ⟨below, ended⟩ := first m
    rw [run] at below ended
    have first := ended _ rfl
    split at first
    case isTrue none =>
      cases first
      have empty : before = [] := none
      rw [empty]
      exact next m
    case isFalse some =>
      obtain ⟨last, own, first⟩ := first
      have calls : m'.calls = m.calls.setLine last.line := first.calls
      obtain ⟨below', rest⟩ := Proceeds.inner own next m' first.line (by rw [calls, CallStack.setLine_setLine])
      rw [calls, CallStack.depth_setLine] at below'
      refine ⟨List.forall_mem_append.2 ⟨below, below'⟩, fun r result => ?_⟩
      obtain ⟨last', own', there, still⟩ := rest r result
      rw [if_neg fun none => some (List.append_eq_nil_iff.1 none).1]
      exact ⟨last', own', first.andThen there still⟩

/-- A statement begins. -/
theorem begin (ctx : Context σ) (access : Access) {st : Stmt} (own : Own st) (here : S st.line) {x : Watch σ Flow}
    (rest : Proceeds S Own st x) :
    Executes S Own (Watch.opening do
      if ← Watch.lift (interrupted ctx access st) then Pure.pure .halt else x) := by
  intro m
  obtain ⟨begun, blamed⟩ := interrupted_line ctx access here m
  have first {r : EStateM.Result RuntimeError (Machine σ) Flow}
      (same : SamePlace { m with line := st.line, calls := m.calls.setLine st.line } (final r))
      (blamed : ∀ e, outcome r = .error e → S e.line) (goes : ∀ v, outcome r ≠ .ok (.returned v)) :
      Ended S st m [m] r :=
    ⟨same.calls, same.line ▸ here, fun _ _ _ => same.line, blamed, fun v given => absurd given (goes v)⟩
  unfold Watch.opening
  cases run : interrupted ctx access st m with
  | error e m' =>
    have ran : Watch.lift (interrupted ctx access st) m = ⟨[], some (.error e m')⟩ := by rw [Watch.lift, run]
    rw [run] at begun blamed
    rw [Watch.bind_of_error ran]
    refine ⟨List.forall_mem_singleton.2 (Nat.le_refl _), fun r result => ?_⟩
    cases result
    refine ⟨st, own, first begun (fun e' failed => ?_) fun v given => ?_⟩
    · cases failed
      exact blamed e rfl
    · cases given
  | ok stop m' =>
    have ran : Watch.lift (interrupted ctx access st) m = ⟨[], some (.ok stop m')⟩ := by rw [Watch.lift, run]
    rw [run] at begun
    have there : SamePlace { m with line := st.line, calls := m.calls.setLine st.line } m' := begun.1
    rw [Watch.bind_of_ok ran]
    cases stop with
    | true =>
      refine ⟨List.forall_mem_singleton.2 (Nat.le_refl _), fun r result => ?_⟩
      cases result
      exact ⟨st, own, first there blames_nothing fun v given => by cases given⟩
    | false =>
      have calls : m'.calls = m.calls.setLine st.line := there.calls
      obtain ⟨below, ended⟩ := rest m' (there.line ▸ here) (by rw [calls, CallStack.setLine_setLine])
      rw [calls, CallStack.depth_setLine] at below
      refine ⟨List.forall_mem_cons.2 ⟨Nat.le_refl _, below⟩, fun r result => ?_⟩
      obtain ⟨last, own', after, still⟩ := ended r result
      have begins : Ended S st m [m] (.ok .normal m') := first there blames_nothing fun v given => by cases given
      exact ⟨last, own', begins.andThen after still⟩

end Executes

/-- What a call does to the line and the frames is what an expression may do. -/
theorem Executes.call {config : Config} {fuel : Nat} {body : Access → List Stmt → Watch σ Flow}
    {mark : Watch σ Flow → Watch σ Flow} {access : Access} {d : Definition Stmt}
    (onBody : Executes S Own (body access d.body)) (kind : CallableKind) (bindings : List Binding) {line : Nat}
    (here : S line) :
    Evaluates S (fun ended => S ended.2)
      ({ Watch.semantics config fuel body with boundary := mark }.runBody access d kind bindings line) := by
  intro m inside
  obtain ⟨m₁, entered, line₁, calls₁⟩ := enter_ok d kind bindings line m
  obtain ⟨below, ended⟩ := onBody m₁
  rw [calls₁, CallStack.depth_push] at below
  rw [Watch.runBody_eq, entered]
  refine ⟨below, fun r closed => ?_⟩
  obtain ⟨r, result, rfl⟩ := Option.map_eq_some_iff.1 closed
  have back : (final r).calls.pop = m.calls ∧ S (final r).line ∧
      ((body access d.body m₁).seen = [] → (final r).line = m.line) ∧ ∀ e, outcome r = .error e → S e.line := by
    have there := ended r result
    split at there
    case isTrue none =>
      subst there
      exact ⟨congrArg CallStack.pop calls₁, line₁ ▸ inside, fun _ => line₁, blames_nothing⟩
    case isFalse some =>
      obtain ⟨last, -, there⟩ := there
      refine ⟨?_, there.line, fun none => absurd none some, there.blamed⟩
      rw [there.calls, calls₁, CallStack.pop_setLine, CallStack.pop_push]
  obtain ⟨calls, there, still, blamed⟩ := back
  obtain ⟨left, others⟩ := closeCall_line here blamed (final r)
  refine ⟨left.final.calls.trans calls, left.final.line ▸ there, fun none => left.final.line.trans (still none),
    others, fun ended given => ?_⟩
  cases run : closeCall line (outcome r) (final r) with
  | error e m' =>
    rw [run] at given
    cases given
  | ok ended' m' =>
    rw [run] at left given
    cases given
    rw [left.2.1]
    exact there

section Levels

variable {ctx : Context σ} {fuel : Nat} {body : Access → List Stmt → Watch σ Flow}

/-- One level of calls, given the bodies of the callables. -/
theorem Evaluates.expressions
    (onBody : ∀ d ∈ ctx.definitions, ∀ access, Executes S (· ∈ Stmt.blockParts d.body) (body access d.body)) :
    Expressions { Watch.semantics ctx.config fuel body with boundary := Watch.opening } ctx S
      (fun _ => Evaluates S) where
  pure := .pure
  bind := .bind
  lift := .lift
  permit d arguments _ here := .lift (.permit here ctx.config d arguments)
  call access kind bindings _ defined here := (onBody _ defined access).call kind bindings here

theorem Proceeds.flowing :
    Watch.Flowing .nothing (FlatRelation.staged fun _ Q (x : Watch σ _) _ => Evaluates S Q x) fun _ x _ =>
      ∀ st, Own st → Proceeds S Own st x where
  exhausted _ _ _ _ _ := ⟨nofun, fun _ never => nomatch never⟩
  normal _ own := .last own (.pure nofun)
  bind first next st own := .bind own first fun a known => next () a trivial known st own
  followedBy first next st own := (first st own).followedBy (next () trivial)

theorem Executes.blocks :
    Blocks { Watch.semantics ctx.config fuel body with boundary := Watch.opening } ctx S (fun _ => Evaluates S) Own
      (fun st x => Own st → Proceeds S Own st x) (Executes S Own) where
  normal := .normal
  followedBy := .followedBy
  begin access _ _ own here rest := .begin ctx access own here (rest own)
  inner h own := .inner own h
  last h own := .last own h
  bind first next own := .bind own first fun a known => next a known own
  returned v returns own := .returned own v returns
  whileLoop {_ c x _} here onCondition onBody own :=
    Proceeds.flowing.whilePasses (w := ()) ctx.config c x (fun _ => .lift (.tick here ctx.config)) fuel
      (fun _ _ _ own => .inner own onBody) (fun _ _ => onCondition) _ own
  repeatLoop {_ c x _} here onBody onCondition own :=
    Proceeds.flowing.repeatPasses (w := ()) ctx.config c x (fun _ => .lift (.tick here ctx.config)) fuel
      (fun _ _ _ own => .inner own onBody) (fun _ _ => onCondition) _ own
  forLoop {_ i} continues {next x _} here onCounter onAdvance onBody own :=
    Proceeds.flowing.forPasses (w := ()) ctx.config x (fun _ => .lift (.tick here ctx.config)) fuel i continues next
      (fun _ _ _ own => .inner own onBody) (fun _ _ => onCounter) (fun _ x _ => onAdvance x) _ own

/-- Blocks run so at every depth of calls, if what they consist of stands on lines of which `S` holds. -/
theorem executes_blocks (placed : ∀ d ∈ ctx.definitions, ∀ l ∈ Stmt.blockPlaces d.body, S l.line) (fuel : Nat)
    (access : Access) {sts : List Stmt} (own : ∀ part ∈ Stmt.blockParts sts, Own part)
    (inside : ∀ l ∈ Stmt.blockPlaces sts, S l.line) :
    Executes S Own ((watchingAt Watch.opening id ctx fuel).execBlock ctx access sts) := by
  induction fuel generalizing access sts Own with
  | zero => exact Executes.blocks.execBlock (Evaluates.expressions fun _ _ _ => .exhausted) access sts own inside
  | succ fuel ih =>
    refine Executes.blocks.execBlock (Evaluates.expressions fun d defined access => ?_) access sts own inside
    exact ih access (fun _ mem => mem) (placed d defined)

/-- A statement that is run begins. -/
theorem execStmt_opening (ctx : Context σ) (fuel : Nat) (access : Access) (st : Stmt) :
    ∃ x, (watchingAt Watch.opening id ctx fuel).execStmt ctx access st = Watch.opening x := by
  cases fuel <;> cases st <;> simp only [Semantics.execStmt] <;> exact ⟨_, rfl⟩

/-- The first statement of a block begins where the block does. -/
theorem execBlock_begins (ctx : Context σ) (access : Access) (st : Stmt) (rest : List Stmt) (m : Machine σ) :
    m ∈ ((watchingAt Watch.opening id ctx fuel).execBlock ctx access (st :: rest) m).seen := by
  obtain ⟨x, opens⟩ := execStmt_opening ctx fuel access st
  have begun : m ∈ (Watch.opening x m).seen := List.mem_cons_self
  rw [← opens] at begun
  exact Watch.seen_subset_bind _ _ m begun

end Levels

end Pseudocode
