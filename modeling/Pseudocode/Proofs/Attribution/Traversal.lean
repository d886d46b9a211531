import Pseudocode.Proofs.Attribution.Blame
import Pseudocode.Proofs.Reading.Fits

/-!
The induction behind every statement about lines. Each step that an expression or a statement takes is given
the line of one of its nodes. So what is known of steps that blame such lines, and of sequences, calls, loops
and beginnings of statements that are made of them, is known of whole blocks (`Blocks.execBlock`). It may
depend on which statement has begun last, of those that stand in the block itself.
-/

namespace Pseudocode

namespace Stmt

mutual

/-- The statements in a statement, itself included; those of a definition are not its own. -/
def parts : Stmt → List Stmt
  | .ifThen condition body other l => .ifThen condition body other l :: (blockParts body ++ otherParts other)
  | .whileDo condition body l => .whileDo condition body l :: blockParts body
  | .repeatUntil body condition l => .repeatUntil body condition l :: blockParts body
  | .forTo counter start stop step body l => .forTo counter start stop step body l :: blockParts body
  | .caseOf subject branches other l =>
    .caseOf subject branches other l :: (branchesParts branches ++ otherParts other)
  | s => [s]

def blockParts : List Stmt → List Stmt
  | [] => []
  | s :: body => s.parts ++ blockParts body

def otherParts : Option (List Stmt) → List Stmt
  | none => []
  | some body => blockParts body

def branchesParts : List (CaseBranch Stmt) → List Stmt
  | [] => []
  | ⟨_, body, _⟩ :: branches => blockParts body ++ branchesParts branches

end

def isReturn : Stmt → Bool
  | .giveBack .. => true
  | _ => false

end Stmt

namespace Semantics

open Exec
open Exec.Blames (memorySteps)
open List (forall_mem_append forall_mem_cons forall_mem_singleton)

variable {σ : Type} {M : Type → Type} [Monad M]

/-- What a property of computations has to know to hold of expressions whose nodes stand on lines of which `S`
holds. What a call gives is a line, too. -/
structure Expressions (s : Semantics σ M) (ctx : Context σ) (S : Nat → Prop)
    (E : ⦃α : Type⦄ → (α → Prop) → M α → Prop) : Prop where
  pure {α : Type} {Q : α → Prop} {a : α} : Q a → E Q (pure a)
  bind {α β : Type} {P : α → Prop} {Q : β → Prop} {x : M α} {f : α → M β} :
    E P x → (∀ a, P a → E Q (f a)) → E Q (x >>= f)
  lift {α : Type} {Q : α → Prop} {x : Exec σ α} : Blames S Q x → E Q (s.lift x)
  permit (d : Definition Stmt) (arguments : Nat) {line : Nat} : S line → E (fun _ => True) (s.permit d arguments line)
  call {d : Definition Stmt} (access : Access) (kind : CallableKind) (bindings : List Binding) {line : Nat} :
    d ∈ ctx.definitions → S line → E (fun ended => S ended.2) (s.runBody access d kind bindings line)

/-- What it has to know to hold of statements. `G` holds of what is left of a statement that has begun, and `F`
of whole statements and of blocks. -/
structure Blocks (s : Semantics σ M) (ctx : Context σ) (S : Nat → Prop)
    (E : ⦃α : Type⦄ → (α → Prop) → M α → Prop) (Own : Stmt → Prop) (G : Stmt → M Flow → Prop)
    (F : M Flow → Prop) : Prop where
  normal : F (pure .normal)
  followedBy {x y : M Flow} : F x → F y → F (do let flow ← x; followedBy flow y)
  begin (access : Access) {st : Stmt} {x : M Flow} : Own st → S st.line → G st x →
    F (s.boundary do if ← s.lift (interrupted ctx access st) then Pure.pure .halt else x)
  inner {st : Stmt} {x : M Flow} : F x → G st x
  last {st : Stmt} {x : M Flow} : E (fun flow => ∀ v, flow ≠ .returned v) x → G st x
  bind {α : Type} {st : Stmt} {P : α → Prop} {x : M α} {f : α → M Flow} :
    E P x → (∀ a, P a → G st (f a)) → G st (x >>= f)
  returned {st : Stmt} (v : Option Value) : st.isReturn = true → G st (pure (.returned v))
  whileLoop {st : Stmt} {c : M Bool} {x : M Flow} {line : Nat} :
    S line → E (fun _ => True) c → F x → G st (s.whileLoop c x line)
  repeatLoop {st : Stmt} {c : M Bool} {x : M Flow} {line : Nat} :
    S line → F x → E (fun _ => True) c → G st (s.repeatLoop x c line)
  forLoop {st : Stmt} {i : M Float} (continues : Float → Bool) {next : Float → M Unit} {x : M Flow} {line : Nat} :
    S line → E (fun _ => True) i → (∀ a, E (fun _ => True) (next a)) → F x →
      G st (s.forLoop i continues next x line)

/-- A function that is called is one of the program. -/
theorem callee_mem {ctx : Context σ} {name : String} {d : Definition Stmt}
    (found : callee ctx name = .ok (.function d)) : d ∈ ctx.definitions := by
  have defined : ctx.definition? name = some d := by
    unfold Exec.callee at found
    split at found
    case h_1 d' _ same _ =>
      split at found <;> cases found
      exact same
    case h_2 d' b same _ =>
      simp only [Except.ok.injEq] at found
      split at found <;> cases found
      exact same
    · cases found
    · cases found
  exact List.mem_of_find?_eq_some defined

namespace Expressions

variable {s : Semantics σ M} {ctx : Context σ} {S : Nat → Prop} {E : ⦃α : Type⦄ → (α → Prop) → M α → Prop}
  (h : Expressions s ctx S E)

include h

theorem fail {Q : α → Prop} {line : Nat} (here : S line) (cause : Cause) : E Q (s.lift (fail cause line)) :=
  h.lift (.fail here cause)

mutual

theorem eval : (e : Expr) → (∀ l ∈ e.places, S l.line) → E (fun _ => True) (s.eval ctx e)
  | .literal v l, _ => h.pure trivial
  | .identifier name l, inside => h.lift (memorySteps.readVariable name (forall_mem_cons.1 inside).1)
  | .element name indices l, inside => by
    obtain ⟨here, there⟩ := forall_mem_cons.1 inside
    exact h.bind (evalIndices here indices there) fun indices _ => h.lift (memorySteps.readElement name indices here)
  | .binary op left right l, inside => by
    obtain ⟨here, there⟩ := forall_mem_cons.1 inside
    obtain ⟨first, second⟩ := forall_mem_append.1 there
    refine h.bind (eval left first) fun a _ => ?_
    split
    · refine h.bind (h.lift (.ofExcept here _)) fun decided _ => ?_
      split
      · exact h.pure trivial
      · refine h.bind (eval right second) fun b _ => h.bind (h.lift (.ofExcept here _)) fun _ _ => ?_
        exact h.pure trivial
    · exact h.bind (eval right second) fun b _ => h.lift (.checked here _)
  | .unary op operand l, inside => by
    obtain ⟨here, there⟩ := forall_mem_cons.1 inside
    exact h.bind (eval operand there) fun v _ => h.lift (.checked here _)
  | .call name args l, inside => by
    obtain ⟨here, there⟩ := forall_mem_cons.1 inside
    refine h.bind (h.lift (.ofExcept here _)) fun found known => ?_
    cases found with
    | function d =>
      refine h.bind (h.permit d args.length here) fun _ _ => ?_
      refine h.bind (evalBindings d here d.params args there) fun bindings _ => ?_
      refine h.bind (h.call .denied .function bindings (callee_mem known) here) fun ended last => ?_
      exact h.lift (.functionResult last d ended.1)
    | builtin b => exact h.bind (evalAll args there) fun values _ => h.lift (.callBuiltin here b values)
  | .addressOf (.identifier name _) l, inside => by
    obtain ⟨here, there⟩ := forall_mem_cons.1 inside
    exact h.bind (h.lift (memorySteps.addressOf name here)) fun _ _ => h.pure trivial
  | .addressOf (.dereference pointer _) l, inside => by
    obtain ⟨here, there⟩ := forall_mem_cons.1 inside
    refine h.bind (eval pointer (forall_mem_cons.1 there).2) fun v _ => ?_
    exact h.bind (h.lift (.pointee here v)) fun _ _ => h.pure trivial
  | .addressOf (.literal ..) l, inside | .addressOf (.element ..) l, inside | .addressOf (.binary ..) l, inside
  | .addressOf (.unary ..) l, inside | .addressOf (.call ..) l, inside | .addressOf (.addressOf ..) l, inside
  | .addressOf (.allocate ..) l, inside | .addressOf (.sizeOf ..) l, inside
  | .addressOf (.endOfFile ..) l, inside => h.fail (forall_mem_cons.1 inside).1 _
  | .dereference pointer l, inside => by
    obtain ⟨here, there⟩ := forall_mem_cons.1 inside
    refine h.bind (eval pointer there) fun v _ => h.bind (h.lift (.pointee here v)) fun address _ => ?_
    exact h.lift (memorySteps.readThrough address here)
  | .allocate size tag l, inside => by
    obtain ⟨here, there⟩ := forall_mem_cons.1 inside
    refine h.bind (eval size there) fun v _ => h.bind (h.lift (.asNumber here v _)) fun count _ => ?_
    exact h.lift (memorySteps.allocateBlock count tag here)
  | .sizeOf type l, _ => h.pure trivial
  | .endOfFile file l, inside => by
    obtain ⟨here, there⟩ := forall_mem_cons.1 inside
    exact h.bind (eval file there) fun v _ => h.lift (.fileEnds here v)

theorem evalAll :
    (es : List Expr) → (∀ l ∈ Expr.placesInside es, S l.line) → E (fun _ => True) (s.evalAll ctx es)
  | [], _ => h.pure trivial
  | e :: rest, inside => by
    obtain ⟨first, others⟩ := forall_mem_append.1 inside
    exact h.bind (eval e first) fun v _ => h.bind (evalAll rest others) fun vs _ => h.pure trivial

theorem evalIndices {line : Nat} (here : S line) :
    (es : List Expr) → (∀ l ∈ Expr.placesInside es, S l.line) → E (fun _ => True) (s.evalIndices ctx line es)
  | [], _ => h.pure trivial
  | e :: rest, inside => by
    obtain ⟨first, others⟩ := forall_mem_append.1 inside
    refine h.bind (eval e first) fun v _ => h.bind (h.lift (.ofExcept here _)) fun index _ => ?_
    exact h.bind (evalIndices here rest others) fun indices _ => h.pure trivial

theorem evalBindings (d : Definition Stmt) {line : Nat} (here : S line) :
    (ps : List Param) → (es : List Expr) → (∀ l ∈ Expr.placesInside es, S l.line) →
      E (fun _ => True) (s.evalBindings ctx d line ps es)
  | p :: ps, e :: rest, inside => by
    simp only [Semantics.evalBindings]
    obtain ⟨first, others⟩ := forall_mem_append.1 inside
    have next (binding : Binding) := h.bind (evalBindings d here ps rest others) fun bindings _ =>
      h.pure (Q := fun _ => True) (a := binding :: bindings) trivial
    split
    · exact h.bind (h.lift (.shareArgument here d p e)) fun binding _ => next binding
    · refine h.bind (eval e first) fun v _ => ?_
      exact h.bind (h.lift (.copyArgument here d p v)) fun binding _ => next binding
  | [], _, _ => by
    simp only [Semantics.evalBindings]
    exact h.pure trivial
  | _ :: _, [], _ => by
    exact h.pure trivial

end

variable {line : Nat} (here : S line)

include here

theorem evalCondition (construct : String) (e : Expr) (inside : ∀ l ∈ e.places, S l.line) :
    E (fun _ => True) (s.evalCondition ctx construct line e) :=
  h.bind (h.eval e inside) fun v _ => h.lift (.truthOf here construct v)

theorem evalNumber (what : String) (e : Expr) (inside : ∀ l ∈ e.places, S l.line) :
    E (fun _ => True) (s.evalNumber ctx what line e) :=
  h.bind (h.eval e inside) fun v _ => h.lift (.asNumber here v what)

theorem evalStep (step : Option Expr) (inside : ∀ l ∈ Expr.placesInside step.toList, S l.line) :
    E (fun _ => True) (s.evalStep ctx line step) := by
  cases step with
  | none => exact h.pure trivial
  | some e => exact h.evalNumber here _ e fun l mem => inside l (List.mem_append_left _ mem)

theorem evalFileName (file : Expr) (inside : ∀ l ∈ file.places, S l.line) :
    E (fun _ => True) (s.evalFileName ctx file line) :=
  h.bind (h.eval file inside) fun v _ => h.lift (.fileName here v)

theorem assign (target : Expr) (inside : ∀ l ∈ target.places, S l.line) (value : Value) :
    E (fun _ => True) (s.assign ctx target value line) := by
  cases target with
  | identifier name _ => exact h.lift (memorySteps.assignVariable name value here)
  | element name indices _ =>
    refine h.bind (h.evalIndices here indices (forall_mem_cons.1 inside).2) fun indices _ => ?_
    exact h.lift (memorySteps.assignElement name indices value here)
  | dereference pointer _ =>
    refine h.bind (h.eval pointer (forall_mem_cons.1 inside).2) fun v _ => ?_
    exact h.bind (h.lift (.pointee here v)) fun address _ => h.lift (memorySteps.assignThrough address value here)
  | _ => exact h.fail here _

variable (access : Access)

theorem output (items : List Expr) (inside : ∀ l ∈ Expr.placesInside items, S l.line) :
    E (fun _ => True) (s.output ctx access items line) :=
  h.bind (h.lift (.requireHost here access _)) fun _ _ => h.bind (h.evalAll items inside) fun _ _ =>
    h.lift (.emit ctx.host _)

theorem openFile (file : Expr) (inside : ∀ l ∈ file.places, S l.line) (mode : FileMode) :
    E (fun _ => True) (s.openFile ctx access file mode line) :=
  h.bind (h.lift (.requireHost here access _)) fun _ _ => h.bind (h.evalFileName here file inside) fun name _ =>
    h.lift (.openNamed here ctx.host name mode)

theorem readFile (file target : Expr) (inside : ∀ l ∈ file.places ++ target.places, S l.line) :
    E (fun _ => True) (s.readFile ctx access file target line) := by
  obtain ⟨first, second⟩ := forall_mem_append.1 inside
  refine h.bind (h.lift (.requireHost here access _)) fun _ _ => ?_
  refine h.bind (h.evalFileName here file first) fun name _ => ?_
  refine h.bind (h.lift (.targetType here target)) fun type _ => ?_
  refine h.bind (h.lift (.readNamed here name)) fun raw _ => ?_
  exact h.bind (h.lift (.convert here target type raw)) fun value _ => h.assign here target second value

theorem writeFile (file value : Expr) (inside : ∀ l ∈ file.places ++ value.places, S l.line) :
    E (fun _ => True) (s.writeFile ctx access file value line) := by
  obtain ⟨first, second⟩ := forall_mem_append.1 inside
  refine h.bind (h.lift (.requireHost here access _)) fun _ _ => ?_
  refine h.bind (h.evalFileName here file first) fun name _ => h.bind (h.eval value second) fun v _ => ?_
  exact h.bind (h.lift (.writeNamed here name _)) fun _ _ => h.lift (.echo ctx _ line)

theorem closeFile (file : Expr) (inside : ∀ l ∈ file.places, S l.line) :
    E (fun _ => True) (s.closeFile ctx access file line) :=
  h.bind (h.lift (.requireHost here access _)) fun _ _ => h.bind (h.evalFileName here file inside) fun name _ =>
    h.lift (.closeNamed here name)

end Expressions

namespace Blocks

variable {s : Semantics σ M} {ctx : Context σ} {S : Nat → Prop} {E : ⦃α : Type⦄ → (α → Prop) → M α → Prop}
  {Own : Stmt → Prop} {G : Stmt → M Flow → Prop} {F : M Flow → Prop}

section Statements

variable (b : Blocks s ctx S E Own G F) {st : Stmt}

include b

/-- A statement without others in it begins on its line. -/
theorem alone (access : Access) {places : List Location} {x : M Flow} (own : ∀ part ∈ [st], Own part)
    (inside : ∀ l ∈ st.location :: places, S l.line)
    (rest : S st.line → (∀ l ∈ places, S l.line) → G st x) :
    F (s.boundary do if ← s.lift (interrupted ctx access st) then Pure.pure .halt else x) := by
  obtain ⟨here, there⟩ := forall_mem_cons.1 inside
  exact b.begin access (forall_mem_singleton.1 own) here (rest here there)

variable (h : Expressions s ctx S E)

include h

theorem simply {x : M Unit} (known : E (fun _ => True) x) : G st (Semantics.simply x) :=
  b.bind known fun _ _ => b.last (h.pure nofun)

theorem fail {line : Nat} (here : S line) (cause : Cause) : G st (s.lift (Exec.fail cause line)) :=
  b.last (h.fail here cause)

variable {line : Nat} (here : S line) (access : Access)

include here

theorem input (target : Expr) (inside : ∀ l ∈ target.places, S l.line) :
    G st (s.input ctx access target line) := by
  refine b.bind (h.lift (.requireHost here access _)) fun _ _ => ?_
  refine b.bind (h.lift (.targetType here target)) fun type _ => ?_
  refine b.bind (h.lift (.askInput ctx.host _ type)) fun answer _ => ?_
  cases answer with
  | none => exact b.last (h.pure nofun)
  | some raw =>
    refine b.bind (h.lift (.convert here target type raw)) fun value _ => ?_
    refine b.bind (h.lift (.emit ctx.host _)) fun _ _ => ?_
    exact b.bind (h.assign here target inside value) fun _ _ => b.last (h.pure nofun)

theorem callNamed (name : String) (args : List Expr) (inside : ∀ l ∈ Expr.placesInside args, S l.line) :
    G st (s.callNamed ctx access name args line) := by
  unfold Semantics.callNamed
  split
  · exact b.fail h here _
  case h_2 d found =>
    split
    · exact b.fail h here _
    · refine b.bind (h.permit d args.length here) fun _ _ => ?_
      refine b.bind (h.evalBindings d here d.params args inside) fun bindings _ => ?_
      have known := h.call access .procedure bindings (List.mem_of_find?_eq_some found) here
      exact b.bind known fun ended last => b.last (h.lift (.procedureResult last d ended.1))

theorem giveBack (value : Option Expr) (inside : ∀ l ∈ Expr.placesInside value.toList, S l.line)
    (returns : st.isReturn = true) : G st (s.giveBack ctx value line) := by
  refine b.bind (h.lift (.requireCall here)) fun _ _ => ?_
  cases value with
  | none => exact b.returned none returns
  | some e =>
    refine b.bind (h.eval e fun l mem => inside l (List.mem_append_left _ mem)) fun v _ => ?_
    exact b.returned (some v) returns

theorem count (name : String) (start stop : Expr) (step : Option Expr)
    (inside : ∀ l ∈ start.places ++ (stop.places ++ Expr.placesInside step.toList), S l.line) {x : M Flow}
    (body : F x) : G st (s.count ctx name start stop step x line) := by
  obtain ⟨first, others⟩ := forall_mem_append.1 inside
  obtain ⟨second, third⟩ := forall_mem_append.1 others
  refine b.bind (h.evalNumber here _ start first) fun from_ _ => ?_
  refine b.bind (h.evalNumber here _ stop second) fun last _ => b.bind (h.evalStep here step third) fun step _ => ?_
  split
  · exact b.fail h here _
  · refine b.bind (h.lift (memorySteps.counterCell name here)) fun cell _ => ?_
    refine b.bind (h.lift (memorySteps.assignVariable name _ here)) fun _ _ => ?_
    exact b.forLoop _ here (h.lift (memorySteps.counterValue cell name here))
      (fun _ => h.lift (memorySteps.assignVariable name _ here)) body

end Statements

mutual

theorem execStmt (b : Blocks s ctx S E Own G F) (h : Expressions s ctx S E) (access : Access) :
    (st : Stmt) → (∀ part ∈ st.parts, Own part) → (∀ l ∈ st.places, S l.line) → F (s.execStmt ctx access st)
  | .declare name type l, own, inside =>
    b.alone access own inside fun here _ => b.simply h (h.lift (memorySteps.declare name type here))
  | .constant name value l, own, inside => by
    refine b.alone access own inside fun here there => b.simply h ?_
    exact h.bind (h.eval value there) fun v _ => h.lift (memorySteps.declareConstant name v here)
  | .assign target value l, own, inside => by
    obtain ⟨here, there⟩ := forall_mem_cons.1 inside
    obtain ⟨first, second⟩ := forall_mem_append.1 there
    refine b.begin access (forall_mem_singleton.1 own) here (b.simply h ?_)
    exact h.bind (h.eval value second) fun v _ => h.assign here target first v
  | .output items l, own, inside =>
    b.alone access own inside fun here there => b.simply h (h.output here access items there)
  | .input target l, own, inside => b.alone access own inside fun here there => b.input h here access target there
  | .ifThen condition thenBranch elseBranch l, own, inside => by
    obtain ⟨here, there⟩ := forall_mem_cons.1 inside
    obtain ⟨tested, branches⟩ := forall_mem_append.1 there
    obtain ⟨yes, no⟩ := forall_mem_append.1 branches
    obtain ⟨self, parts⟩ := forall_mem_cons.1 own
    obtain ⟨ownYes, ownNo⟩ := forall_mem_append.1 parts
    refine b.begin access self here (b.bind (h.evalCondition here _ condition tested) fun truth _ => b.inner ?_)
    cases truth with
    | true => exact b.execBlock h access thenBranch ownYes yes
    | false => exact b.execElse h access elseBranch ownNo no
  | .whileDo condition body l, own, inside => by
    obtain ⟨here, there⟩ := forall_mem_cons.1 inside
    obtain ⟨tested, within⟩ := forall_mem_append.1 there
    obtain ⟨self, parts⟩ := forall_mem_cons.1 own
    refine b.begin access self here (b.whileLoop here (h.evalCondition here _ condition tested) ?_)
    exact b.execBlock h access body parts within
  | .repeatUntil body condition l, own, inside => by
    obtain ⟨here, there⟩ := forall_mem_cons.1 inside
    obtain ⟨tested, within⟩ := forall_mem_append.1 there
    obtain ⟨self, parts⟩ := forall_mem_cons.1 own
    refine b.begin access self here (b.repeatLoop here ?_ (h.evalCondition here _ condition tested))
    exact b.execBlock h access body parts within
  | .forTo counter start stop step body l, own, inside => by
    obtain ⟨here, there⟩ := forall_mem_cons.1 inside
    obtain ⟨first, others⟩ := forall_mem_append.1 there
    obtain ⟨second, more⟩ := forall_mem_append.1 others
    obtain ⟨third, within⟩ := forall_mem_append.1 more
    obtain ⟨self, parts⟩ := forall_mem_cons.1 own
    have counts := forall_mem_append.2 ⟨first, forall_mem_append.2 ⟨second, third⟩⟩
    refine b.begin access self here (b.count h here counter start stop step counts ?_)
    exact b.execBlock h access body parts within
  | .caseOf subject branches otherwise l, own, inside => by
    obtain ⟨here, there⟩ := forall_mem_cons.1 inside
    obtain ⟨tested, within⟩ := forall_mem_append.1 there
    obtain ⟨selected, other⟩ := forall_mem_append.1 within
    obtain ⟨self, parts⟩ := forall_mem_cons.1 own
    obtain ⟨ownSelected, ownOther⟩ := forall_mem_append.1 parts
    refine b.begin access self here (b.bind (h.eval subject tested) fun v _ => b.inner ?_)
    exact b.execBranches h access v (b.execElse h access otherwise ownOther other) branches ownSelected selected
  | .define d, own, inside => b.alone access own inside fun _ _ => b.inner b.normal
  | .call name args l, own, inside =>
    b.alone access own inside fun here there => b.callNamed h here access name args there
  | .giveBack value l, own, inside => b.alone access own inside fun here there => b.giveBack h here value there rfl
  | .openFile file mode l, own, inside =>
    b.alone access own inside fun here there => b.simply h (h.openFile here access file there mode)
  | .readFile file target l, own, inside =>
    b.alone access own inside fun here there => b.simply h (h.readFile here access file target there)
  | .writeFile file value l, own, inside =>
    b.alone access own inside fun here there => b.simply h (h.writeFile here access file value there)
  | .closeFile file l, own, inside =>
    b.alone access own inside fun here there => b.simply h (h.closeFile here access file there)
  | .free pointer l, own, inside => by
    refine b.alone access own inside fun here there => b.simply h ?_
    exact h.bind (h.eval pointer there) fun v _ => h.lift (memorySteps.freeBlock v here)

theorem execBlock (b : Blocks s ctx S E Own G F) (h : Expressions s ctx S E) (access : Access) :
    (sts : List Stmt) → (∀ part ∈ Stmt.blockParts sts, Own part) → (∀ l ∈ Stmt.blockPlaces sts, S l.line) →
      F (s.execBlock ctx access sts)
  | [], _, _ => b.normal
  | st :: rest, own, inside => by
    obtain ⟨first, others⟩ := forall_mem_append.1 inside
    obtain ⟨ownFirst, ownOthers⟩ := forall_mem_append.1 own
    exact b.followedBy (b.execStmt h access st ownFirst first) (b.execBlock h access rest ownOthers others)

theorem execElse (b : Blocks s ctx S E Own G F) (h : Expressions s ctx S E) (access : Access) :
    (body : Option (List Stmt)) → (∀ part ∈ Stmt.otherParts body, Own part) →
      (∀ l ∈ Stmt.otherPlaces body, S l.line) → F (s.execElse ctx access body)
  | none, _, _ => b.normal
  | some body, own, inside => b.execBlock h access body own inside

theorem execBranches (b : Blocks s ctx S E Own G F) (h : Expressions s ctx S E) (access : Access)
    (subject : Value) {x : M Flow} (otherwise : F x) :
    (branches : List (CaseBranch Stmt)) → (∀ part ∈ Stmt.branchesParts branches, Own part) →
      (∀ l ∈ Stmt.branchesPlaces branches, S l.line) → F (s.execBranches ctx access subject x branches)
  | [], _, _ => by
    exact otherwise
  | ⟨label, body, _⟩ :: rest, own, inside => by
    simp only [Semantics.execBranches]
    obtain ⟨first, others⟩ := forall_mem_append.1 inside
    obtain ⟨ownFirst, ownOthers⟩ := forall_mem_append.1 own
    split
    · exact b.execBlock h access body ownFirst first
    · exact b.execBranches h access subject otherwise rest ownOthers others

end

end Blocks

end Semantics

end Pseudocode
