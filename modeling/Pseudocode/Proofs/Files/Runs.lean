import Pseudocode.Proofs.Files.History
import Pseudocode.Proofs.Outside.Inward
import Pseudocode.Proofs.Termination

/-!
What a run does with files. Expressions leave them alone, and a statement makes at most one change, which is an
event (`FileStore.Follows`). So the files are at every boundary of statements what a history of events says, and
each event is seen.
-/

namespace Pseudocode

open Exec Semantics FileEvent

variable {σ : Type} {α β : Type} {host : Host σ}

/-- A file is opened to be read with what the host answers, and otherwise without content. -/
def FileEvent.Possible (host : Host σ) : FileEvent → Prop
  | .opened name .read content => ∃ s, (host.requestFile name s).1 = content
  | .opened _ _ content => content = none
  | _ => True

namespace FileStore

/-- At most one event happens. -/
def Moves (host : Host σ) (s s' : FileStore) : Prop := s' = s ∨ ∃ e : FileEvent, e.Possible host ∧ e.Turns s s'

/-- The stores that are seen, from a first to a last one, with the events between them: no two happen without a
store being seen in between. -/
inductive Follows (host : Host σ) : FileStore → List FileStore → List FileEvent → FileStore → Prop
  | last (s : FileStore) : Follows host s [] [] s
  | same {s s' : FileStore} {seen : List FileStore} {es : List FileEvent} :
    Follows host s seen es s' → Follows host s (s :: seen) es s'
  | event {s s₁ s' : FileStore} {e : FileEvent} {seen : List FileStore} {es : List FileEvent} :
    e.Possible host → e.Turns s s₁ → Follows host s₁ seen es s' → Follows host s (s₁ :: seen) (e :: es) s'

namespace Follows

variable {a b c : FileStore} {l l' : List FileStore} {es es' before after : List FileEvent}

theorem append (first : Follows host a l es b) (next : Follows host b l' es' c) :
    Follows host a (l ++ l') (es ++ es') c := by
  induction first with
  | last => exact next
  | same _ ih => exact .same (ih next)
  | event possible turns _ ih => exact .event possible turns (ih next)

theorem snoc (first : Follows host a l es b) (moves : Moves host b c) : ∃ es', Follows host a (l ++ [c]) es' c := by
  rcases moves with rfl | ⟨e, possible, turns⟩
  · exact ⟨_, first.append (.same (.last _))⟩
  · exact ⟨_, first.append (.event possible turns (.last _))⟩

theorem still (same : ∀ s ∈ l, s = a) : Follows host a l [] a := by
  induction l with
  | nil => exact .last a
  | cons s l ih =>
    obtain ⟨rfl, same⟩ := List.forall_mem_cons.1 same
    exact .same (ih same)

theorem possible (h : Follows host a l es b) : ∀ e ∈ es, e.Possible host := by
  induction h with
  | last => exact nofun
  | same _ ih => exact ih
  | event possible _ _ ih => exact List.forall_mem_cons.2 ⟨possible, ih⟩

/-- After each event a store is seen that the events until then have led to. -/
theorem reached (h : Follows host a l (before ++ after) b) (some : before ≠ []) {earlier : List FileEvent}
    (begun : Reached earlier a) : ∃ s ∈ l, Reached (earlier ++ before) s := by
  generalize split : before ++ after = es at h
  induction h generalizing before earlier with
  | last s => exact absurd (List.append_eq_nil_iff.1 split).1 some
  | same _ ih =>
    obtain ⟨s, mem, reached⟩ := ih some begun split
    exact ⟨s, List.mem_cons_of_mem _ mem, reached⟩
  | @event s s₁ s' e seen es possible turns _ ih =>
    obtain ⟨first, before, rfl⟩ := List.exists_cons_of_ne_nil some
    obtain ⟨rfl, rest⟩ := List.cons.inj split
    by_cases last : before = []
    · subst last
      exact ⟨s₁, List.mem_cons_self, begun.step turns⟩
    · obtain ⟨s, mem, reached⟩ := ih last (begun.step turns) rest
      exact ⟨s, List.mem_cons_of_mem _ mem, by simpa using reached⟩

theorem reached_last (h : Follows host a l es b) {earlier : List FileEvent} (begun : Reached earlier a) :
    Reached (earlier ++ es) b := by
  induction h generalizing earlier with
  | last => simpa using begun
  | same _ ih => exact ih begun
  | event possible turns _ ih => simpa using ih (begun.step turns)

end Follows

end FileStore

open FileStore (Moves Follows)

namespace Exec

/-- A step leaves the files alone. -/
def KeepsFiles : Property σ := fun _ Q x => ∀ m : Machine σ, Ends (fun m' => m'.files = m.files) Q (x m)

namespace KeepsFiles

theorem pure {Q : α → Prop} {a : α} (known : Q a) : KeepsFiles Q (pure a : Exec σ α) := fun _ => ⟨rfl, known⟩

theorem bind {P : α → Prop} {Q : β → Prop} {x : Exec σ α} {f : α → Exec σ β} (first : KeepsFiles P x)
    (next : ∀ a, P a → KeepsFiles Q (f a)) : KeepsFiles Q (x >>= f) := by
  intro m
  have ended := first m
  rw [bind_apply]
  generalize x m = r at ended ⊢
  cases r with
  | ok a m' => exact (next a ended.2 m').mono (fun _ same => same.trans ended.1) fun _ known => known
  | error e m' => exact ended

theorem of_inward {Q : α → Prop} {x : Exec σ α} (h : Inward Q x) : KeepsFiles Q x :=
  fun m => (h m).1.mono (fun _ same => same.files) fun _ known => known

theorem modifyGet {f : Machine σ → α × Machine σ} (same : ∀ m, (f m).2.files = m.files) :
    KeepsFiles (fun _ => True) (modifyGet f : Exec σ α) :=
  fun m => ⟨same m, trivial⟩

theorem tick (config : Config) (line : Nat) : KeepsFiles (fun _ => True) (tick config line : Exec σ Unit) :=
  bind (modifyGet fun _ => rfl) fun _ _ => of_inward (Inward.enclosing.checkBudget config line)

theorem permit (config : Config) (d : Definition Stmt) (arguments line : Nat) :
    KeepsFiles (fun _ => True) (Watch.permit config d arguments line : Exec σ Unit) := by
  unfold Watch.permit
  split
  · refine fun m => ?_
    rw [get_bind]
    split
    · exact rfl
    · exact ⟨rfl, trivial⟩
  · exact fun _ => rfl

theorem emit (host : Host σ) (l : OutputLine) : KeepsFiles (fun _ => True) (emit host l) := fun _ => ⟨rfl, trivial⟩

theorem echo (ctx : Context σ) (text : String) (line : Nat) : KeepsFiles (fun _ => True) (echo ctx text line) := by
  unfold Exec.echo
  split
  · exact emit ctx.host _
  · exact pure trivial

theorem interrupted (ctx : Context σ) (access : Access) (st : Stmt) :
    KeepsFiles (fun _ => True) (interrupted ctx access st) := by
  refine bind (modifyGet fun _ => rfl) fun _ _ => ?_
  refine bind (of_inward (Inward.enclosing.checkBudget ctx.config st.line)) fun _ _ => ?_
  cases access with
  | denied => exact pure trivial
  | granted =>
    refine bind (modifyGet fun _ => rfl) fun stopped _ => ?_
    split
    · exact pure trivial
    · split
      · exact bind (modifyGet fun _ => rfl) fun _ _ => pure trivial
      · exact pure trivial

end KeepsFiles

section Moves

variable (name : String) (line : Nat) (m : Machine σ)

theorem openNamed_moves (host : Host σ) (mode : FileMode) :
    Moves host m.files (final (openNamed host name mode line m)).files := by
  have asked : ∃ content m', askFile host name mode m = .ok content m' ∧ m'.files = m.files ∧
      Possible host (.opened name mode content) := by
    cases mode with
    | read => exact ⟨_, _, rfl, rfl, m.host, rfl⟩
    | write | append => exact ⟨none, m, rfl, rfl, rfl⟩
  obtain ⟨content, m', asked, same, possible⟩ := asked
  unfold openNamed
  rw [bind_of_ok asked, get_bind, same]
  cases opened : m.files.openFile name mode content with
  | error e => exact .inl same
  | ok files => exact .inr ⟨_, possible, opened⟩

theorem readNamed_moves (host : Host σ) : Moves host m.files (final (readNamed name line m)).files := by
  unfold readNamed
  rw [get_bind]
  cases read : m.files.readLine name with
  | error e => exact .inl rfl
  | ok answer => exact .inr ⟨.read name answer.1, trivial, read⟩

theorem writeNamed_moves (host : Host σ) (text : String) :
    Moves host m.files (final (writeNamed name text line m)).files := by
  unfold writeNamed
  rw [get_bind]
  cases writable : m.files.checkWritable name with
  | error e => exact .inl rfl
  | ok _ =>
    refine .inr ⟨.wrote name text, trivial, ?_⟩
    show m.files.writeLine name text = .ok (m.files.append name text)
    rw [FileStore.writeLine, writable]
    rfl

theorem closeNamed_moves (host : Host σ) : Moves host m.files (final (closeNamed name line m)).files := by
  unfold closeNamed
  rw [get_bind]
  cases closed : m.files.close name with
  | error e => exact .inl rfl
  | ok files => exact .inr ⟨.closed name, trivial, closed⟩

end Moves

end Exec

/-- A watched computation leaves the files alone. -/
def Still (Q : α → Prop) (x : Watch σ α) : Prop :=
  ∀ m, (∀ s ∈ (x m).seen, s.files = m.files) ∧
    ∀ r, (x m).result = some r → Ends (fun m' => m'.files = m.files) Q r

/-- Events happen one at a time. `L` tells how the last store that is seen goes with that in which the
computation ends. -/
def Unfolds (host : Host σ) (L : FileStore → FileStore → Prop) (x : Watch σ α) : Prop :=
  ∀ m, ∃ es last, Follows host m.files ((x m).seen.map (·.files)) es last ∧
    ∀ r, (x m).result = some r → L last (final r).files

/-- After the last event a state is seen. -/
abbrev Anchored (host : Host σ) (x : Watch σ α) : Prop := Unfolds host (fun last s => s = last) x

/-- After the last state that is seen at most one event happens. -/
abbrev Paced (host : Host σ) (x : Watch σ α) : Prop := Unfolds host (Moves host) x

namespace Still

theorem lift {Q : α → Prop} {x : Exec σ α} (h : KeepsFiles Q x) : Still Q (Watch.lift x) := by
  refine fun m => ⟨nofun, fun r ended => ?_⟩
  cases ended
  exact h m

theorem pure (a : α) : Still (fun _ => True) (pure a : Watch σ α) := lift (.pure trivial)

theorem bind {P : α → Prop} {Q : β → Prop} {x : Watch σ α} {f : α → Watch σ β} (first : Still P x)
    (next : ∀ a, P a → Still Q (f a)) : Still Q (x >>= f) := by
  intro m
  obtain ⟨seen, ended⟩ := first m
  rcases run : x m with ⟨before, _ | ⟨a, m'⟩ | ⟨e, m'⟩⟩
  · rw [run] at seen
    rw [Watch.bind_of_none run]
    exact ⟨seen, fun _ never => nomatch never⟩
  · rw [run] at seen ended
    rw [Watch.bind_of_ok run]
    obtain ⟨same, known⟩ := ended _ rfl
    obtain ⟨after, rest⟩ := next a known m'
    rw [same] at after
    refine ⟨List.forall_mem_append.2 ⟨seen, after⟩, fun r last => ?_⟩
    exact (rest r last).mono (fun _ there => there.trans same) fun _ known => known
  · rw [run] at seen ended
    rw [Watch.bind_of_error run]
    refine ⟨seen, fun r last => ?_⟩
    cases last
    exact ended _ rfl

theorem between {Q : Flow → Prop} {x : Watch σ Flow} (h : Still Q x) : Still Q (Watch.between x) := by
  intro m
  obtain ⟨seen, ended⟩ := h m
  refine ⟨List.forall_mem_cons.2 ⟨rfl, List.forall_mem_append.2 ⟨seen, fun s mem => ?_⟩⟩, ended⟩
  obtain ⟨r, result, rfl⟩ := Option.map_eq_some_iff.1 (Option.mem_toList.1 mem)
  exact (ended r result).final

theorem composes : Watch.Composes .nothing (FlatRelation.staged fun _ Q (x : Watch σ _) _ => Still Q x) where
  exhausted _ := ⟨nofun, fun _ never => nomatch never⟩
  pure known := lift (.pure known)
  bind first next := bind first fun a known => next () a trivial known

theorem runBody {config : Config} {fuel : Nat} {body : Access → List Stmt → Watch σ Flow}
    {access : Access} {d : Definition Stmt} {Q : Flow → Prop} (onBody : Still Q (body access d.body))
    (kind : CallableKind) (bindings : List Binding) (line : Nat) :
    Still (fun ended => Q ended.1) ((Watch.semantics config fuel body).runBody access d kind bindings line) := by
  intro m
  have began := enter_control d kind bindings line m
  rw [Watch.runBody_eq]
  cases entered : enter d kind bindings line m with
  | error e m₁ =>
    rw [entered] at began
    refine ⟨nofun, fun r ended => ?_⟩
    cases ended
    exact began.files
  | ok _ m₁ =>
    rw [entered] at began
    have same : m₁.files = m.files := began.files
    obtain ⟨seen, ended⟩ := onBody m₁
    rw [same] at seen
    refine ⟨seen, fun r closed => ?_⟩
    obtain ⟨r, result, rfl⟩ := Option.map_eq_some_iff.1 closed
    have there := ended r result
    refine (closeCall_control line (outcome r) (final r)).mono (fun _ left => ?_) fun _ given => ?_
    · exact left.files.trans (there.final.trans same)
    · cases r with
      | ok flow m₂ =>
        cases given
        exact there.2
      | error e m₂ => cases given

end Still

/-- Expressions, and statements without rights, leave the files alone. -/
abbrev ExpressionsStill (ctx : Context σ) (s : Semantics σ (Watch σ)) : Prop :=
  SelfCongruence s ctx (Alike (Inward : Property σ)).staged (FlatRelation.staged fun _ Q x _ => Still Q x) .nothing
    (fun access access' => access = .denied ∧ access' = .denied) True

theorem ExpressionsStill.level (ctx : Context σ) (fuel : Nat) {body : Access → List Stmt → Watch σ Flow}
    (onBody : ∀ sts, Still ((Knowledge.nothing : Knowledge Unit).flow ()) (body .denied sts)) :
    ExpressionsStill ctx (Watch.semantics ctx.config fuel body) := by
  have steps : Steps (Alike (Inward : Property σ)).staged .nothing
      (fun access access' => access = .denied ∧ access' = .denied) ctx ctx :=
    Inward.quietSteps.steps (Alike.sequenced Inward.gives Inward.sequences) (Alike.memoryRelated Inward.memorySteps)
      (fun known => ⟨rfl, known⟩) (fun _ => .true) (Inward.enclosing.checkBudget ctx.config)
  refine Still.composes.semantics fuel steps (fun known => .lift (.of_inward known.2)) .between
    (fun _ line => .lift (.tick ctx.config line))
    (fun _ arguments line => .lift (.permit ctx.config _ arguments line)) ?_
  rintro _ - access access' ⟨rfl, rfl⟩ d kind bindings line -
  exact (onBody d.body).runBody kind bindings line

namespace Unfolds

variable {L : FileStore → FileStore → Prop}

theorem exhausted : Unfolds host L (Watch.exhausted : Watch σ α) :=
  fun m => ⟨[], m.files, .last _, fun _ never => nomatch never⟩

theorem of_still (refl : ∀ s, L s s) {Q : α → Prop} {x : Watch σ α} (h : Still Q x) : Unfolds host L x := by
  intro m
  obtain ⟨seen, ended⟩ := h m
  refine ⟨[], m.files, .still (List.forall_mem_map.2 seen), fun r result => ?_⟩
  rw [(ended r result).final]
  exact refl _

/-- Nothing has happened before. -/
theorem bind (refl : ∀ s, L s s) {P : α → Prop} {x : Watch σ α} {f : α → Watch σ β} (first : Still P x)
    (next : ∀ a, P a → Unfolds host L (f a)) : Unfolds host L (x >>= f) := by
  intro m
  obtain ⟨seen, ended⟩ := first m
  have stays : Follows host m.files ((x m).seen.map (·.files)) [] m.files := .still (List.forall_mem_map.2 seen)
  rcases run : x m with ⟨before, _ | ⟨a, m'⟩ | ⟨e, m'⟩⟩
  · rw [run] at stays
    rw [Watch.bind_of_none run]
    exact ⟨[], m.files, stays, fun _ never => nomatch never⟩
  · rw [run] at stays ended
    rw [Watch.bind_of_ok run]
    obtain ⟨same, known⟩ := ended _ rfl
    obtain ⟨es, last, follows, rest⟩ := next a known m'
    rw [same] at follows
    refine ⟨es, last, ?_, rest⟩
    rw [List.map_append]
    exact stays.append follows
  · rw [run] at stays ended
    rw [Watch.bind_of_error run]
    refine ⟨[], m.files, stays, fun r last => ?_⟩
    cases last
    have same : m'.files = m.files := (ended _ rfl).final
    show L m.files m'.files
    rw [same]
    exact refl _

/-- The last event is seen before others happen. -/
theorem followedBy {x y : Watch σ Flow} (first : Anchored host x) (next : Anchored host y) :
    Anchored host (do let flow ← x; Semantics.followedBy flow y) := by
  intro m
  obtain ⟨es, last, follows, ended⟩ := first m
  rcases Watch.followedBy_cases x y m with same | ⟨before, m', run, same⟩
  · rw [same]
    exact ⟨es, last, follows, ended⟩
  · rw [run] at follows ended
    obtain ⟨es', last', follows', ended'⟩ := next m'
    rw [← ended _ rfl] at follows
    rw [same, List.map_append]
    exact ⟨es ++ es', last', follows.append follows', ended'⟩

theorem paced {x : Watch σ α} (h : Anchored host x) : Paced host x := by
  intro m
  obtain ⟨es, last, follows, ended⟩ := h m
  exact ⟨es, last, follows, fun r result => .inl (ended r result)⟩

/-- A step in which at most one event happens. -/
theorem lift {x : Exec σ α} (moves : ∀ m : Machine σ, Moves host m.files (final (x m)).files) :
    Paced host (Watch.lift x) := by
  refine fun m => ⟨[], m.files, .last _, fun r result => ?_⟩
  cases result
  exact moves m

/-- Nothing happens afterwards. -/
theorem before {P : β → Prop} {x : Watch σ α} {f : α → Watch σ β} (first : Paced host x)
    (next : ∀ a, Still P (f a)) : Paced host (x >>= f) := by
  intro m
  obtain ⟨es, last, follows, ended⟩ := first m
  rcases run : x m with ⟨before, _ | ⟨a, m'⟩ | ⟨e, m'⟩⟩
  · rw [run] at follows
    rw [Watch.bind_of_none run]
    exact ⟨es, last, follows, fun _ never => nomatch never⟩
  · rw [run] at follows ended
    rw [Watch.bind_of_ok run]
    have moves : Moves host last m'.files := ended _ rfl
    obtain ⟨seen, rest⟩ := next a m'
    -- The event is the last one, unless a state is seen after it.
    cases after : (f a m').seen with
    | nil =>
      rw [List.append_nil]
      refine ⟨es, last, follows, fun r result => ?_⟩
      rw [(rest r result).final]
      exact moves
    | cons s later =>
      rw [after] at seen
      obtain ⟨here, seen⟩ := List.forall_mem_cons.1 seen
      obtain ⟨es', follows'⟩ := follows.snoc moves
      refine ⟨es' ++ [], m'.files, ?_, fun r result => .inl (rest r result).final⟩
      rw [List.append_cons, List.map_append, List.map_append, List.map_singleton, here]
      exact follows'.append (.still (List.forall_mem_map.2 seen))
  · rw [run] at follows ended
    rw [Watch.bind_of_error run]
    refine ⟨es, last, follows, fun r result => ?_⟩
    cases result
    exact ended _ rfl

/-- With the state in which the computation ends, all events are seen. -/
theorem states {x : Watch σ α} (h : Paced host x) (m : Machine σ) :
    ∃ es last, Follows host m.files ((x m).states.map (·.files)) es last ∧
      ∀ r, (x m).result = some r → (final r).files = last := by
  obtain ⟨es, last, follows, ended⟩ := h m
  unfold Observed.states
  rw [List.map_append]
  cases result : (x m).result with
  | none => exact ⟨es, last, by simpa using follows, fun _ never => nomatch never⟩
  | some r =>
    obtain ⟨es', follows'⟩ := follows.snoc (ended r result)
    refine ⟨es', _, follows', fun r result => ?_⟩
    cases result
    rfl

theorem between {x : Watch σ Flow} (h : Paced host x) : Anchored host (Watch.between x) := by
  intro m
  obtain ⟨es, last, follows, ended⟩ := h.states m
  exact ⟨es, last, .same follows, ended⟩

theorem flowing : Watch.Flowing .nothing (FlatRelation.staged fun _ Q (x : Watch σ _) _ => Still Q x)
    fun _ x _ => Anchored host x where
  exhausted := exhausted
  normal := of_still (L := fun last s => s = last) (fun _ => rfl) (.pure _)
  bind first next := bind (L := fun last s => s = last) (fun _ => rfl) first fun a known =>
    next () a trivial known
  followedBy first next := followedBy first (next () trivial)

theorem runBody {config : Config} {fuel : Nat} {body : Access → List Stmt → Watch σ Flow} {access : Access}
    {d : Definition Stmt} (onBody : Anchored host (body access d.body)) (kind : CallableKind)
    (bindings : List Binding) (line : Nat) :
    Anchored host ((Watch.semantics config fuel body).runBody access d kind bindings line) := by
  intro m
  have began := enter_control d kind bindings line m
  rw [Watch.runBody_eq]
  cases entered : enter d kind bindings line m with
  | error e m₁ =>
    rw [entered] at began
    refine ⟨[], m.files, .last _, fun r ended => ?_⟩
    cases ended
    exact began.files
  | ok _ m₁ =>
    rw [entered] at began
    have same : m₁.files = m.files := began.files
    obtain ⟨es, last, follows, ended⟩ := onBody m₁
    rw [same] at follows
    refine ⟨es, last, follows, fun r closed => ?_⟩
    obtain ⟨r, result, rfl⟩ := Option.map_eq_some_iff.1 closed
    exact (closeCall_control line (outcome r) (final r)).final.files.trans (ended r result)

section Statements

variable {ctx : Context σ} {fuel : Nat} {body : Access → List Stmt → Watch σ Flow}

/-- At most one event happens between what leaves the files alone. -/
theorem simply {x : Watch σ Unit} (h : Paced host x) : Paced host (Semantics.simply x) :=
  before h fun _ => .pure _

variable (known : ExpressionsStill ctx (Watch.semantics ctx.config fuel body))

include known

theorem openFile (file : Expr) (mode : FileMode) (line : Nat) :
    Paced ctx.host ((Watch.semantics ctx.config fuel body).openFile ctx .granted file mode line) := by
  refine bind (fun _ => .inl rfl) (Still.pure ()) fun _ _ => ?_
  refine bind (fun _ => .inl rfl) (known.evalFileName () file line) fun name _ => ?_
  exact lift fun m => openNamed_moves name line m ctx.host mode

theorem readFile (file target : Expr) (line : Nat) :
    Paced ctx.host ((Watch.semantics ctx.config fuel body).readFile ctx .granted file target line) := by
  refine bind (fun _ => .inl rfl) (Still.pure ()) fun _ _ => ?_
  refine bind (fun _ => .inl rfl) (known.evalFileName () file line) fun name _ => ?_
  refine bind (fun _ => .inl rfl) (known.lift (w := ()) (known.steps.targetType line target)) fun type _ => ?_
  refine before (P := fun _ => True) (lift fun m => readNamed_moves name line m ctx.host) fun raw => ?_
  refine .bind (known.lift (w := ()) (known.steps.convert target type raw line)) fun v _ => ?_
  exact known.assign () target line trivial

theorem writeFile (file value : Expr) (line : Nat) :
    Paced ctx.host ((Watch.semantics ctx.config fuel body).writeFile ctx .granted file value line) := by
  refine bind (fun _ => .inl rfl) (Still.pure ()) fun _ _ => ?_
  refine bind (fun _ => .inl rfl) (known.evalFileName () file line) fun name _ => ?_
  refine bind (fun _ => .inl rfl) (known.eval () value) fun v _ => ?_
  exact before (lift fun m => writeNamed_moves name line m ctx.host v.display) fun _ =>
    .lift (.echo ctx v.display line)

theorem closeFile (file : Expr) (line : Nat) :
    Paced ctx.host ((Watch.semantics ctx.config fuel body).closeFile ctx .granted file line) := by
  refine bind (fun _ => .inl rfl) (Still.pure ()) fun _ _ => ?_
  refine bind (fun _ => .inl rfl) (known.evalFileName () file line) fun name _ => ?_
  exact lift fun m => closeNamed_moves name line m ctx.host

theorem output (items : List Expr) (line : Nat) :
    Still (fun _ => True) ((Watch.semantics ctx.config fuel body).output ctx .granted items line) := by
  refine Still.bind (.pure ()) fun _ _ => ?_
  exact .bind (known.evalAll () items) fun values _ => .lift (.emit ctx.host _)

theorem input (target : Expr) (line : Nat) :
    Still (fun _ => True) ((Watch.semantics ctx.config fuel body).input ctx .granted target line) := by
  refine Still.bind (.pure ()) fun _ _ => ?_
  refine .bind (known.lift (w := ()) (known.steps.targetType line target)) fun type _ => ?_
  refine .bind (.lift (.modifyGet fun _ => rfl)) fun answer _ => ?_
  cases answer with
  | none => exact .pure _
  | some raw =>
    refine .bind (known.lift (w := ()) (known.steps.convert target type raw line)) fun v _ => ?_
    refine .bind (.lift (.emit ctx.host _)) fun _ _ => ?_
    exact .bind (known.assign () target line trivial) fun _ _ => .pure _

theorem flows (onBody : ∀ sts, Anchored ctx.host (body .granted sts)) :
    SelfFlows (Watch.semantics ctx.config fuel body) ctx
      (FlatRelation.staged fun _ Q x _ => Still Q x) .nothing True .granted
      (fun _ x _ => Anchored ctx.host x) fun _ x _ => Paced ctx.host x where
  normal := flowing.normal (w := ())
  followedBy first next := followedBy first (next () trivial)
  weaken := paced
  bind first next := bind (fun _ => .inl rfl) first fun a known => next () a trivial known
  fail _ _ := lift fun _ => .inl rfl
  begin st x _ rest := by
    refine between (bind (fun _ => .inl rfl) (.lift (.interrupted ctx .granted st)) fun stopped _ => ?_)
    cases stopped with
    | true => exact lift fun _ => .inl rfl
    | false => exact rest ()
  whileLoop {_ _ c' _ y} line onCondition onBody :=
    paced (flowing.whilePasses ctx.config c' y (fun _ => .lift (.tick ctx.config line)) fuel onBody onCondition)
  repeatLoop {_ _ c' _ y} line onBody onCondition :=
    paced (flowing.repeatPasses ctx.config c' y (fun _ => .lift (.tick ctx.config line)) fuel onBody onCondition)
  forLoop {_ _ i'} continues _ next' _ y line onCounter onAdvance onBody :=
    paced (flowing.forPasses ctx.config y (fun _ => .lift (.tick ctx.config line)) fuel i' continues next' onBody
      onCounter onAdvance)
  call _ d bindings line _ :=
    before (paced (runBody (onBody d.body) .procedure bindings line)) fun ended =>
      known.lift (w := ()) (known.steps.procedureResult d ended)
  giveBack value line :=
    known.giveBack (G := fun _ x _ => Paced ctx.host x)
      (fun first next => bind (fun _ => .inl rfl) first fun a q => next () a trivial q)
      (fun _ => lift fun _ => .inl rfl) () value line
  output items line := simply (of_still (fun _ => .inl rfl) (output known items line))
  input target line := of_still (fun _ => .inl rfl) (input known target line)
  openFile file mode line := simply (openFile known file mode line)
  readFile file target line := simply (readFile known file target line)
  writeFile file value line := simply (writeFile known file value line)
  closeFile file line := simply (closeFile known file line)

end Statements

/-- Events happen one at a time at every depth of calls. -/
theorem levels (ctx : Context σ) (fuel : Nat) :
    ExpressionsStill ctx (watching ctx fuel) ∧
      ∀ sts, Anchored ctx.host ((watching ctx fuel).execBlock ctx .granted sts) := by
  induction fuel with
  | zero =>
    have known : ExpressionsStill ctx (Watch.semantics ctx.config 0 fun _ _ => Watch.exhausted) :=
      .level ctx 0 fun _ => Still.composes.exhausted (w := ())
    exact ⟨known, fun sts => (flows known fun _ => exhausted).execBlock known () sts⟩
  | succ fuel ih =>
    have known := ExpressionsStill.level ctx (fuel + 1) fun sts => ih.1.execBlock ⟨rfl, rfl⟩ () sts
    exact ⟨known, fun sts => (flows known ih.2).execBlock known () sts⟩

theorem observe (p : Program) (host : Host σ) (config : Config) (fuel : Nat) :
    Paced host (p.observe host config fuel) := by
  obtain ⟨known, onBlock⟩ := levels ⟨host, config, p.definitions, none⟩ fuel
  refine bind (fun _ => .inl rfl) (known.lift (w := ()) (known.steps.checkDefinitions p)) fun _ _ => ?_
  refine before (P := fun _ => True) (paced (onBlock p.statements)) fun flow => ?_
  exact known.lift (w := ()) (known.steps.outcomeOf flow)

end Unfolds

/-- What a run does with files, from the first to the last boundary of its statements. -/
def Program.FileHistory (p : Program) (host : Host σ) (config : Config) (draws : Draws) (state : σ)
    (es : List FileEvent) : Prop :=
  Follows host .empty
    ((p.observe host config (config.maxDepth + config.maxIterations + 1) (.initial config draws state)).states.map
      (·.files)) es
    (final (p.exec host config (.initial config draws state))).files

namespace Program

variable (p : Program) (host : Host σ) (config : Config) (draws : Draws) (state : σ)

theorem exists_fileHistory : ∃ es, p.FileHistory host config draws state es := by
  have paced := Unfolds.observe p host config (config.maxDepth + config.maxIterations + 1)
  obtain ⟨es, last, follows, ended⟩ := paced.states (.initial config draws state)
  refine ⟨es, ?_⟩
  rw [FileHistory, ended _ (observe_result p host config draws state 0)]
  exact follows

variable {p host config draws state} {es before after : List FileEvent}

namespace FileHistory

theorem reached_last (h : p.FileHistory host config draws state es) :
    Reached es (final (p.exec host config (.initial config draws state))).files :=
  Follows.reached_last h .start

/-- The events until some moment have led to a state that can be reached. -/
theorem reachable (h : p.FileHistory host config draws state (before ++ after)) (some : before ≠ []) :
    ∃ m, Reachable p host config draws state m ∧ Reached before m.files := by
  obtain ⟨s, mem, reached⟩ := Follows.reached h some .start
  obtain ⟨m, seen, rfl⟩ := List.mem_map.1 mem
  exact ⟨m, ⟨_, seen⟩, reached⟩

end FileHistory

end Program

end Pseudocode
