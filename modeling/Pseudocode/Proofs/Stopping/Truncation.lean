import Pseudocode.Proofs.Outside.Inward

/-!
Runs that are cut short. The same program is run twice, with two states of one host that answer alike
until the first one asks for a stop. As long as they do, the runs differ in the host's state alone; then
the shorter run is over, and the longer one goes on (`Truncation.exec`).
-/

namespace Pseudocode

open Exec Machine Semantics

variable {σ : Type} {α β : Type}

/-- The state of a host after one thing has been asked of it or shown to it. -/
inductive Host.Asked (host : Host σ) : σ → σ → Prop
  | emit (l : OutputLine) (s : σ) : Asked host s (host.emit l s)
  | requestInput (name : String) (type : DataType) (s : σ) : Asked host s (host.requestInput name type s).2
  | step (snapshot : Snapshot) (s : σ) : Asked host s (host.step snapshot s).2
  | requestFile (name : String) (s : σ) : Asked host s (host.requestFile name s).2
  | cancelled (s : σ) : Asked host s (host.cancelled s).2

/-- Two states of a host give the same answer, or the first one gives an answer that stops the run. -/
def Answers (stops : α → Prop) (Goes Cut : σ → σ → Prop) (first second : α × σ) : Prop :=
  (first.1 = second.1 ∧ Goes first.2 second.2) ∨ (stops first.1 ∧ Cut first.2 second.2)

/-- How two states of a host compare: `Between` two statements, when a statement has `Begun`, and when
the first one has `Cut` its run short. -/
structure Truncation (host : Host σ) (Between Begun Cut : σ → σ → Prop) : Prop where
  between {s t : σ} : Begun s t → Between s t
  poll {s t : σ} : Between s t → Answers (· = true) Begun Cut (host.cancelled s) (host.cancelled t)
  step {s t : σ} (snapshot : Snapshot) :
    Begun s t → Answers (· = .stop) Begun Cut (host.step snapshot s) (host.step snapshot t)
  requestInput {s t : σ} (name : String) (type : DataType) :
    Begun s t → Answers (· = none) Begun Cut (host.requestInput name type s) (host.requestInput name type t)
  requestFile {s t : σ} (name : String) :
    Begun s t → Answers (fun _ => False) Begun Cut (host.requestFile name s) (host.requestFile name t)
  emit {s t : σ} (l : OutputLine) : Begun s t → Between (host.emit l s) (host.emit l t)
  cut {s t t' : σ} : Cut s t → host.Asked t t' → Cut s t'

namespace Exec

/-- A run that has ended stopped or has failed. -/
def Stopped (r : EStateM.Result RuntimeError (Machine σ) Flow) : Prop :=
  ∀ flow, outcome r = .ok flow → flow = .halt

/-- The shorter of two runs has ended as the longer one, or it was cut. -/
def Shortened (Between Cut : σ → σ → Prop) (r r' : EStateM.Result RuntimeError (Machine σ) Flow) : Prop :=
  (∃ s, r = mapState (·.withHost s) r' ∧ Between s (final r').host) ∨
    (Stopped r ∧ Cut (final r).host (final r').host)

/-- Begun with states of the host that compare as `From` says, `x` is as long as `y`, or it is cut. A run
of `y` keeps what is known of a host that has cut its run before. -/
structure Cuts (From Between Cut : σ → σ → Prop) (x y : Exec σ Flow) : Prop where
  shortened (m : Machine σ) (s : σ) : From s m.host → Shortened Between Cut (x (m.withHost s)) (y m)
  cut (m : Machine σ) (s : σ) : Cut s m.host → Cut s (final (y m)).host

namespace Cuts

variable {From Goes Between Cut : σ → σ → Prop} {x y x' y' : Exec σ Flow}

theorem weaken (h : Cuts Between Between Cut x y) (weaker : ∀ s t, From s t → Between s t) :
    Cuts From Between Cut x y :=
  ⟨fun m s from' => h.shortened m s (weaker _ _ from'), h.cut⟩

theorem pure (weaker : ∀ s t, From s t → Between s t) (flow : Flow) :
    Cuts From Between Cut (pure flow) (pure flow) :=
  ⟨fun _ s from' => .inl ⟨s, rfl, weaker _ _ from'⟩, fun _ _ cut => cut⟩

/-- A step that has nothing to do with the host goes the same way in both runs. -/
theorem bind (weaker : ∀ s t, From s t → Between s t) {Q : α → Prop} {z : Exec σ α} {f g : α → Exec σ Flow}
    (first : Hostless Q z) (next : ∀ a, Q a → Cuts From Between Cut (f a) (g a)) :
    Cuts From Between Cut (z >>= f) (z >>= g) := by
  constructor
  · intro m s from'
    obtain ⟨ended, blind⟩ := first m
    cases run : z m with
    | ok a m' =>
      rw [run] at ended blind
      obtain ⟨same, known⟩ := ended
      rw [bind_of_ok run, bind_of_ok (blind s)]
      rw [← same] at from'
      exact (next a known).shortened m' s from'
    | error e m' =>
      rw [run] at ended blind
      rw [bind_of_error run, bind_of_error (blind s)]
      refine .inl ⟨s, rfl, weaker _ _ ?_⟩
      rw [← show m'.host = m.host from ended] at from'
      exact from'
  · intro m s cut
    obtain ⟨ended, -⟩ := first m
    rw [bind_apply]
    generalize z m = r at ended ⊢
    cases r with
    | ok a m' =>
      apply (next a ended.2).cut
      rw [ended.1]
      exact cut
    | error e m' =>
      rw [← show m'.host = m.host from ended] at cut
      exact cut

theorem hostless (weaker : ∀ s t, From s t → Between s t) (h : Hostless (fun _ => True) x) :
    Cuts From Between Cut x x := by
  rw [← bind_pure x]
  exact bind weaker h fun flow _ => pure weaker flow

/-- Where the first run is cut, nothing follows in it. -/
theorem followedBy (first : Cuts Between Between Cut x y) (next : Cuts Between Between Cut x' y') :
    Cuts Between Between Cut (do let flow ← x; Exec.followedBy flow x')
      (do let flow ← y; Exec.followedBy flow y') := by
  have keeps (m : Machine σ) (s : σ) (cut : Cut s (final (y m)).host) :
      Cut s (final ((do let flow ← y; Exec.followedBy flow y') m)).host := by
    rw [bind_apply]
    generalize y m = r at cut ⊢
    cases r with
    | ok flow m' =>
      cases flow with
      | normal => exact next.cut m' s cut
      | returned v | halt => exact cut
    | error e m' => exact cut
  constructor
  · intro m s between
    rcases first.shortened m s between with ⟨s', same, between'⟩ | ⟨stopped, cut⟩
    · cases run : y m with
      | ok flow m' =>
        rw [run] at same between'
        rw [bind_of_ok run, bind_of_ok same]
        cases flow with
        | normal => exact next.shortened m' s' between'
        | returned v | halt => exact .inl ⟨s', rfl, between'⟩
      | error e m' =>
        rw [run] at same between'
        rw [bind_of_error run, bind_of_error same]
        exact .inl ⟨s', rfl, between'⟩
    · refine .inr ?_
      have cut' := keeps m _ cut
      rw [bind_apply]
      generalize x (m.withHost s) = r at stopped cut' ⊢
      cases r with
      | ok flow m' =>
        obtain rfl := stopped flow rfl
        exact ⟨stopped, cut'⟩
      | error e m' => exact ⟨fun _ => nofun, cut'⟩
  · intro m s cut
    exact keeps m s (first.cut m s cut)

/-- A question that is put to the host in a state of the machine. -/
def asking (q : Machine σ → σ → α × σ) : Exec σ α :=
  modifyGet fun m => ((q m m.host).1, m.withHost (q m m.host).2)

theorem ask {q : Machine σ → σ → α × σ} (blind : ∀ m s, q (m.withHost s) = q m) {stops : α → Prop}
    (answers : ∀ m s t, From s t → Answers stops Goes Cut (q m s) (q m t))
    (keeps : ∀ m s t, Cut s t → Cut s (q m t).2) {f g : α → Exec σ Flow}
    (halts : ∀ a, stops a → f a = Pure.pure .halt) (next : ∀ a, Cuts Goes Between Cut (f a) (g a)) :
    Cuts From Between Cut (asking q >>= f) (asking q >>= g) := by
  constructor
  · intro m s from'
    show Shortened Between Cut (f (q (m.withHost s) s).1 (m.withHost (q (m.withHost s) s).2))
      (g (q m m.host).1 (m.withHost (q m m.host).2))
    rw [blind]
    rcases answers m s m.host from' with ⟨same, goes⟩ | ⟨stop, cut⟩
    · rw [same]
      exact (next _).shortened (m.withHost (q m m.host).2) (q m s).2 goes
    · rw [halts _ stop]
      refine .inr ⟨fun flow ended => ?_, (next _).cut (m.withHost (q m m.host).2) (q m s).2 cut⟩
      cases ended
      rfl
  · intro m s cut
    exact (next _).cut (m.withHost (q m m.host).2) s (keeps m s m.host cut)

/-- A run goes on after its body has ended, however it did; if the body was cut, so is the run. -/
theorem attempt (body : Cuts Between Between Cut x y) {k : Except RuntimeError Flow → Exec σ Flow}
    (rest : ∀ r, Hostless (fun _ => True) (k r))
    (stops : ∀ r, (∀ flow, r = .ok flow → flow = .halt) → ∀ m, Stopped (k r m)) :
    Cuts Between Between Cut (Exec.attempt x >>= k) (Exec.attempt y >>= k) := by
  have keeps (r : Except RuntimeError Flow) (m : Machine σ) : (final (k r m)).host = m.host := (rest r m).1.final
  constructor
  · intro m s between
    rw [bind_of_ok (attempt_eq x _), bind_of_ok (attempt_eq y m)]
    rcases body.shortened m s between with ⟨s', same, between'⟩ | ⟨stopped, cut⟩
    · rw [same, outcome_mapState, final_mapState]
      refine .inl ⟨s', (rest _ _).2 s', ?_⟩
      rw [keeps]
      exact between'
    · refine .inr ⟨stops _ stopped _, ?_⟩
      rw [keeps, keeps]
      exact cut
  · intro m s cut
    rw [bind_of_ok (attempt_eq y m), keeps]
    exact body.cut m s cut

/-- What is done at the end has nothing to do with the host. -/
theorem ended (whole : Cuts Between Between Cut x y) {k : Flow → Exec σ α}
    (rest : ∀ flow, Hostless (fun _ => True) (k flow)) (m : Machine σ) (s : σ) (between : Between s m.host) :
    (∃ s', (x >>= k) (m.withHost s) = mapState (·.withHost s') ((y >>= k) m) ∧
      Between s' (final ((y >>= k) m)).host) ∨
    Cut (final ((x >>= k) (m.withHost s))).host (final ((y >>= k) m)).host := by
  have keeps (z : Exec σ Flow) (m : Machine σ) : (final ((z >>= k) m)).host = (final (z m)).host := by
    rw [bind_apply]
    generalize z m = r
    cases r with
    | ok flow m' => exact (rest flow m').1.final
    | error e m' => rfl
  rcases whole.shortened m s between with ⟨s', same, between'⟩ | ⟨-, cut⟩
  · refine .inl ⟨s', ?_, ?_⟩
    · cases run : y m with
      | ok flow m' =>
        rw [run] at same
        rw [bind_of_ok run, bind_of_ok same]
        exact (rest flow m').2 s'
      | error e m' =>
        rw [run] at same
        rw [bind_of_error run, bind_of_error same]
        rfl
    · rw [keeps]
      exact between'
  · refine .inr ?_
    rw [keeps, keeps]
    exact cut

theorem sequenced :
    FlowSequenced (Alike (Inward : Property σ)).staged .nothing fun _ => Cuts Between Between Cut where
  normal := pure (fun _ _ h => h) _
  bind first next := by
    obtain ⟨rfl, step⟩ := first
    exact bind (fun _ _ h => h) step.hostless fun a known => next () a trivial known
  followedBy first next := followedBy first (next () trivial)

/-- What is left of a call when its body has ended. -/
theorem afterBody (d : Definition Stmt) (line : Nat) {body body' : Exec σ Flow}
    (onBody : Cuts Between Between Cut body body') :
    Cuts Between Between Cut
      (do let r ← Exec.attempt body; let ended ← closeCall line r; procedureResult d ended)
      (do let r ← Exec.attempt body'; let ended ← closeCall line r; procedureResult d ended) := by
  refine onBody.attempt (fun r => ?_) fun r halted m => ?_
  · have closes := (Inward.enclosing.closeCall line fun _ _ => trivial :
      Inward (fun _ => True) (closeCall line r : Exec σ _))
    refine (Inward.sequences.bind closes fun ended _ => ?_).hostless
    obtain ⟨_ | (_ | _) | _, _⟩ := ended
    · exact Inward.sequences.pure trivial
    · exact Inward.sequences.pure trivial
    · exact Inward.sequences.fail trivial trivial
    · exact Inward.sequences.pure trivial
  · have seen : currentLine m = .ok m.line m := rfl
    unfold closeCall
    rw [bind_assoc, bind_of_ok seen, bind_assoc]
    cases left : leave line m with
    | error e m' =>
      rw [bind_of_error left]
      exact fun _ => nofun
    | ok _ m' =>
      rw [bind_of_ok left]
      cases r with
      | error e => exact fun _ => nofun
      | ok flow =>
        obtain rfl := halted flow rfl
        intro flow ended
        cases ended
        rfl

end Cuts

end Exec

namespace Truncation

open Exec (Cuts)
open Exec.Cuts (asking)

variable {host : Host σ} {Between Begun Cut : σ → σ → Prop} (h : Truncation host Between Begun Cut)
  {x y : Exec σ Flow}

include h

theorem bind {Q : α → Prop} {z : Exec σ α} {f g : α → Exec σ Flow} (first : Hostless Q z)
    (next : ∀ a, Q a → Cuts Begun Between Cut (f a) (g a)) : Cuts Begun Between Cut (z >>= f) (z >>= g) :=
  Cuts.bind (fun _ _ => h.between) first next

theorem pure (flow : Flow) : Cuts Begun Between Cut (Pure.pure flow) (Pure.pure flow) :=
  Cuts.pure (fun _ _ => h.between) flow

/-- A statement begins with the questions whether to go on. -/
theorem begin {ctx : Context σ} (here : ctx.host = host) (st : Stmt) (rest : Cuts Begun Between Cut x y) :
    Cuts Between Between Cut (do if ← interrupted ctx .granted st then Pure.pure .halt else x)
      (do if ← interrupted ctx .granted st then Pure.pure .halt else y) := by
  have same : ∀ s t, Between s t → Between s t := fun _ _ between => between
  have quiet := Hostless.fileSteps (σ := σ)
  subst here
  simp only [interrupted, bind_assoc]
  refine Cuts.bind same (quiet.setLine st.line) fun _ _ => ?_
  refine Cuts.bind same (Inward.enclosing.checkBudget _ _).hostless fun _ _ => ?_
  refine Cuts.ask (q := fun _ => ctx.host.cancelled) (fun _ _ => rfl) (fun _ _ _ between => h.poll between)
    (fun _ _ t cut => h.cut cut (.cancelled t)) ?_ fun stopped => ?_
  · rintro _ rfl
    rfl
  · cases stopped with
    | true => exact h.pure .halt
    | false =>
      simp only [Bool.false_eq_true, if_false]
      split
      · simp only [bind_assoc, pure_bind]
        refine Cuts.ask (q := fun m => ctx.host.step (m.snapshot true)) (fun _ _ => rfl)
          (fun m _ _ begun => h.step (m.snapshot true) begun)
          (fun m _ t cut => h.cut cut (.step (m.snapshot true) t)) ?_ fun reply => ?_
        · rintro _ rfl
          rfl
        · cases reply with
          | stop => exact h.pure .halt
          | resume => exact rest
      · exact rest

theorem emitting (l : OutputLine) (next : Cuts Between Between Cut x y) :
    Cuts Begun Between Cut (do Exec.emit host l; x) (do Exec.emit host l; y) := by
  constructor
  · intro m s begun
    exact next.shortened { m with host := host.emit l m.host, transcript := m.transcript.push l } _
      (h.emit l begun)
  · intro m s cut
    exact next.cut { m with host := host.emit l m.host, transcript := m.transcript.push l } s
      (h.cut cut (.emit l m.host))

section Statements

variable {ctx : Context σ} (here : ctx.host = host)
  (related : SelfCongruence (ofExec ctx) ctx (Alike (Inward : Property σ)).staged
    (Alike (Inward : Property σ)).staged .nothing (fun access access' => access = .denied ∧ access' = .denied)
    True)

include related

theorem readFile (file target : Expr) (line : Nat) :
    Cuts Begun Between Cut (Semantics.simply ((ofExec ctx).readFile ctx .granted file target line))
      (Semantics.simply ((ofExec ctx).readFile ctx .granted file target line)) := by
  simp only [Semantics.simply, Semantics.readFile, bind_assoc]
  refine h.bind (Inward.sequences.requireHost .granted "READFILE" line).hostless fun _ _ => ?_
  refine h.bind (related.evalFileName () file line).2.hostless fun name _ => ?_
  refine h.bind (related.steps.targetType (w := ()) line target).2.hostless fun type _ => ?_
  refine h.bind (Hostless.fileSteps.readNamed name line) fun raw _ => ?_
  refine h.bind (related.steps.convert (w := ()) target type raw line).2.hostless fun v _ => ?_
  exact h.bind (related.assign () target line trivial).2.hostless fun _ _ => h.pure .normal

theorem closeFile (file : Expr) (line : Nat) :
    Cuts Begun Between Cut (Semantics.simply ((ofExec ctx).closeFile ctx .granted file line))
      (Semantics.simply ((ofExec ctx).closeFile ctx .granted file line)) := by
  simp only [Semantics.simply, Semantics.closeFile, bind_assoc]
  refine h.bind (Inward.sequences.requireHost .granted "CLOSEFILE" line).hostless fun _ _ => ?_
  refine h.bind (related.evalFileName () file line).2.hostless fun name _ => ?_
  exact h.bind (Hostless.fileSteps.closeNamed name line) fun _ _ => h.pure .normal

include here

theorem output (items : List Expr) (line : Nat) :
    Cuts Begun Between Cut (Semantics.simply ((ofExec ctx).output ctx .granted items line))
      (Semantics.simply ((ofExec ctx).output ctx .granted items line)) := by
  subst here
  simp only [Semantics.simply, Semantics.output, bind_assoc]
  refine h.bind (Inward.sequences.requireHost .granted "OUTPUT" line).hostless fun _ _ => ?_
  refine h.bind (related.evalAll () items).2.hostless fun values _ => ?_
  exact h.emitting _ (.pure (fun _ _ between => between) .normal)

theorem writeFile (file value : Expr) (line : Nat) :
    Cuts Begun Between Cut (Semantics.simply ((ofExec ctx).writeFile ctx .granted file value line))
      (Semantics.simply ((ofExec ctx).writeFile ctx .granted file value line)) := by
  subst here
  simp only [Semantics.simply, Semantics.writeFile, bind_assoc]
  refine h.bind (Inward.sequences.requireHost .granted "WRITEFILE" line).hostless fun _ _ => ?_
  refine h.bind (related.evalFileName () file line).2.hostless fun name _ => ?_
  refine h.bind (related.eval () value).2.hostless fun v _ => ?_
  refine h.bind (Hostless.fileSteps.writeNamed name v.display line) fun _ _ => ?_
  show Cuts Begun Between Cut (echo ctx v.display line >>= _) (echo ctx v.display line >>= _)
  unfold echo
  split
  · exact h.emitting _ (.pure (fun _ _ between => between) .normal)
  · exact h.pure .normal

theorem input (target : Expr) (line : Nat) :
    Cuts Begun Between Cut ((ofExec ctx).input ctx .granted target line)
      ((ofExec ctx).input ctx .granted target line) := by
  subst here
  have same : ∀ s t, Between s t → Between s t := fun _ _ between => between
  refine h.bind (Inward.sequences.requireHost .granted "INPUT" line).hostless fun _ _ => ?_
  refine h.bind (related.steps.targetType (w := ()) line target).2.hostless fun type _ => ?_
  refine Cuts.ask (q := fun _ => ctx.host.requestInput (targetName target) type) (fun _ _ => rfl)
    (fun _ _ _ begun => h.requestInput _ type begun) (fun _ _ t cut => h.cut cut (.requestInput _ type t)) ?_
    fun answer => ?_
  · rintro _ rfl
    rfl
  · cases answer with
    | none => exact h.pure .halt
    | some raw =>
      refine h.bind (related.steps.convert (w := ()) target type raw line).2.hostless fun v _ => ?_
      refine h.emitting _ ?_
      exact Cuts.bind same (related.assign () target line trivial).2.hostless fun _ _ => .pure same .normal

theorem openFile (file : Expr) (mode : FileMode) (line : Nat) :
    Cuts Begun Between Cut (Semantics.simply ((ofExec ctx).openFile ctx .granted file mode line))
      (Semantics.simply ((ofExec ctx).openFile ctx .granted file mode line)) := by
  subst here
  simp only [Semantics.simply, Semantics.openFile, bind_assoc]
  refine h.bind (Inward.sequences.requireHost .granted "OPENFILE" line).hostless fun _ _ => ?_
  refine h.bind (related.evalFileName () file line).2.hostless fun name _ => ?_
  show Cuts Begun Between Cut (openNamed ctx.host name mode line >>= _) (openNamed ctx.host name mode line >>= _)
  unfold openNamed
  rw [bind_assoc]
  have opens (content : Option String) :=
    h.bind (Hostless.fileSteps.openContent name mode content line) fun _ _ => h.pure .normal
  cases mode with
  | read =>
    exact Cuts.ask (q := fun _ => ctx.host.requestFile name) (fun _ _ => rfl)
      (fun _ _ _ begun => h.requestFile name begun) (fun _ _ t cut => h.cut cut (.requestFile name t))
      (fun _ impossible => impossible.elim) opens
  | write | append => exact opens none

end Statements

section Runs

variable (config : Config) (definitions : List (Definition Stmt)) (frames : Nat)

/-- One level of calls, given that the bodies of callables are cut as their runs are. -/
theorem flows
    (onBody : ∀ sts, Cuts Between Between Cut
      ((ofExec (runContext host config definitions frames)).body .granted sts)
      ((ofExec (runContext host config definitions frames)).body .granted sts)) :
    SelfFlows (ofExec (runContext host config definitions frames)) (runContext host config definitions frames)
      (Alike (Inward : Property σ)).staged .nothing True .granted (fun _ => Cuts Between Between Cut)
      fun _ => Cuts Begun Between Cut := by
  have related := Inward.runs host config definitions frames
  have counted := Inward.enclosing (σ := σ).counted config
  have sequenced : FlowSequenced (Alike (Inward : Property σ)).staged .nothing
    fun _ => Cuts Between Between Cut := Cuts.sequenced
  have begun {x y : Exec σ Flow} (whole : Cuts Between Between Cut x y) : Cuts Begun Between Cut x y :=
    whole.weaken fun _ _ => h.between
  have bound {α : Type} {w : Unit} {Q : Unit → α → Prop} {x y : Exec σ α} {f g : α → Exec σ Flow}
      (first : (Alike (Inward : Property σ)).staged w Q x y)
      (next : ∀ w' a, True → Q w' a → Cuts Begun Between Cut (f a) (g a)) :
      Cuts Begun Between Cut (x >>= f) (y >>= g) := by
    obtain ⟨rfl, step⟩ := first
    exact h.bind step.hostless fun a known => next () a trivial known
  exact {
    normal := .pure (fun _ _ between => between) .normal
    followedBy := sequenced.followedBy
    weaken := begun
    bind := bound
    fail := fun _ ordinary => begun (.hostless (fun _ _ h => h) (Inward.sequences.fail trivial ordinary).hostless)
    begin := fun st _ _ rest => h.begin rfl st (rest ())
    whileLoop := fun line onCondition onBody => begun (sequenced.whileLoop counted line onCondition onBody)
    repeatLoop := fun line onBody onCondition => begun (sequenced.repeatLoop counted line onBody onCondition)
    forLoop := fun continues _ _ _ _ line onCounter onAdvance onBody =>
      begun (sequenced.forLoop counted continues line onCounter onAdvance onBody)
    call := fun _ d bindings line _ => by
      simp only [Semantics.runBody, bind_assoc]
      refine h.bind (Inward.enclosing.enter d .procedure bindings line).hostless fun _ _ => ?_
      exact begun (Cuts.afterBody d line (onBody d.body))
    giveBack := fun {w} value line => related.giveBack bound (fun _ => h.pure (.returned _)) w value line
    output := h.output rfl related
    input := h.input rfl related
    openFile := h.openFile rfl related
    readFile := h.readFile related
    writeFile := h.writeFile rfl related
    closeFile := h.closeFile related }

-- By induction on the frames: the body of a callable is run with one frame less.
theorem runBlock (sts : List Stmt) :
    Cuts Between Between Cut (runBlock host config definitions frames .granted sts)
      (Exec.runBlock host config definitions frames .granted sts) := by
  induction frames generalizing sts with
  | zero =>
    have flowing := h.flows config definitions 0 fun _ => .pure (fun _ _ between => between) .normal
    rw [runBlock_eq]
    exact flowing.execBlock (Inward.runs host config definitions 0) () sts
  | succ frames ih =>
    have flowing := h.flows config definitions (frames + 1) ih
    rw [runBlock_eq]
    exact flowing.execBlock (Inward.runs host config definitions (frames + 1)) () sts

end Runs

/-- Of two runs of a program, the shorter one ends as the longer one does, or it is cut. -/
theorem exec (p : Program) (config : Config) (m : Machine σ) (s : σ) (between : Between s m.host) :
    (∃ s', p.exec host config (m.withHost s) = mapState (·.withHost s') (p.exec host config m) ∧
      Between s' (final (p.exec host config m)).host) ∨
    Cut (final (p.exec host config (m.withHost s))).host (final (p.exec host config m)).host := by
  have ends (flow : Flow) : Inward (fun _ => True) (outcomeOf flow : Exec σ Outcome) := by
    cases flow with
    | normal | halt => exact Inward.sequences.pure trivial
    | returned v =>
      exact Inward.sequences.bind Inward.quietSteps.currentLine fun _ _ => Inward.sequences.fail trivial trivial
  have checked : Inward (fun _ => True) (checkDefinitions p : Exec σ Unit) := by
    unfold checkDefinitions
    split
    · exact Inward.sequences.fail trivial trivial
    · exact Inward.sequences.pure trivial
  have whole : Cuts Between Between Cut
      (do checkDefinitions p; Exec.runBlock host config p.definitions config.maxDepth .granted p.statements)
      (do checkDefinitions p; Exec.runBlock host config p.definitions config.maxDepth .granted p.statements) :=
    Cuts.bind (fun _ _ h => h) checked.hostless fun _ _ => h.runBlock config p.definitions config.maxDepth _
  have split : p.exec host config =
      (do checkDefinitions p; Exec.runBlock host config p.definitions config.maxDepth .granted p.statements) >>=
        outcomeOf := by
    rw [← exec_ofExec, bind_assoc, runBlock_eq]
    rfl
  rw [split]
  exact whole.ended (fun flow => (ends flow).hostless) m s between

end Truncation

end Pseudocode
