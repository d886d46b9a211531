import Pseudocode.Proofs.Memory.Atomicity
import Pseudocode.Proofs.Trace.Ledger
import Pseudocode.Trace.Query

/-!
What the trace tells of pointers. Whoever reads it from its beginning can keep of every variable where its block
is, where the latest store under its name made it point, and what a store through a pointer has put there since
then (`Trace.Report`). In a program without definitions all that is true of the variables at any time
(`Machine.Told`). The targets of pointer variables that are read from a trace follow the stores under a name
alone: they are current unless the latest store to the variable went through a pointer
(`pointerTargets_follow_names`), and such a store leaves them behind (`resetThroughPointer_stale`).
-/

namespace Pseudocode

open Exec Machine

variable {σ : Type} {α : Type}

/-- No element of an array has this name in a trace. -/
def PlainName (name : String) : Prop := ∀ array indices, elementName array indices ≠ name

theorem plainName_of_not_mem {name : String} (plain : '[' ∉ name.toList) : PlainName name := by
  rintro array indices rfl
  simp [elementName] at plain

theorem DataType.isPointer_of_isArray {type : DataType} (array : type.isArray = true) : type.isPointer = false := by
  cases type <;> first | rfl | cases array

/-- The address that a pointer variable holds, if it is assigned and not NULL. -/
def Variable.pointsTo? (v : Variable) : Option Nat :=
  match v.value with
  | some (.address a) => if a = 0 then none else some a
  | _ => none

namespace Trace

/-- What a trace tells of a variable: where its block is, if it has one; where the latest store under its name
made it point, unless to NULL; and the text of the latest store, if that went through a pointer. -/
structure Report where
  place : Option Nat := none
  target : Option Nat := none
  through : Option String := none

/-- What is told behind one more operation. -/
def Report.next (name : String) (r : Report) (operation : Operation) (details : Details) : Report :=
  match operation, details.subject, details.address with
  | .allocate, some subject, some a => if subject = name then { r with place := some a } else r
  | .pointerAssign, some subject, some a =>
    if subject = name then { r with target := if a = 0 then none else some a, through := none } else r
  | .write, none, some a => if r.place = some a then { r with through := details.value } else r
  | _, _, _ => r

/-- What some entries tell of a variable. -/
def report (name : String) (entries : List TraceEntry) : Report :=
  entries.foldl (fun r e => r.next name e.operation e.details) {}

@[simp]
theorem report_snoc (name : String) (entries : List TraceEntry) (e : TraceEntry) :
    report name (entries ++ [e]) = (report name entries).next name e.operation e.details := by
  simp [report]

theorem puts_retarget (name : String) (target : Nat) : Puts name target (retarget name target) where
  nil := rfl
  cons _ _ := by simp [retarget]

namespace Report

variable {r : Report} {name : String} {operation : Operation} {details : Details}

/-- All that an operation can tell: where the block of the variable is, where a store under its name makes it point,
or that a store at its block went through a pointer. -/
theorem next_cases (r : Report) (name : String) (operation : Operation) (details : Details) :
    r.next name operation details = r ∨
    (details.subject = some name ∧ ∃ a, r.next name operation details = { r with place := some a }) ∨
    (operation = .pointerAssign ∧ details.subject = some name ∧
      ∃ target, r.next name operation details = { r with target, through := none }) ∨
    (details.subject = none ∧ r.place ≠ none ∧ ∃ through, r.next name operation details = { r with through }) := by
  unfold next
  split
  next named _ =>
    split
    next own => exact .inr (.inl ⟨own ▸ named, _, rfl⟩)
    next => exact .inl rfl
  next named _ =>
    split
    next own => exact .inr (.inr (.inl ⟨rfl, own ▸ named, _, rfl⟩))
    next => exact .inl rfl
  next unnamed _ =>
    split
    next here => exact .inr (.inr (.inr ⟨unnamed, here ▸ nofun, _, rfl⟩))
    next => exact .inl rfl
  next => exact .inl rfl

theorem target_next (other : operation ≠ .pointerAssign) : (r.next name operation details).target = r.target := by
  obtain same | ⟨-, a, told⟩ | ⟨assigns, -⟩ | ⟨-, -, through, told⟩ := next_cases r name operation details
  · rw [same]
  · rw [told]
  · exact absurd assigns other
  · rw [told]

variable {subject : String}

/-- An operation with a subject tells of no other name. -/
theorem next_of_subject (named : details.subject = some subject) (other : subject ≠ name) :
    r.next name operation details = r := by
  obtain same | ⟨own, -⟩ | ⟨-, own, -⟩ | ⟨unnamed, -⟩ := next_cases r name operation details
  · exact same
  · exact absurd (Option.some.inj (named.symm.trans own)) other
  · exact absurd (Option.some.inj (named.symm.trans own)) other
  · cases named.symm.trans unnamed

theorem next_allocate {a : Nat} (named : details.subject = some subject) (taken : details.address = some a) :
    r.next name .allocate details = if subject = name then { r with place := some a } else r := by
  cases details
  cases named
  cases taken
  rfl

theorem next_pointerAssign {a : Nat} (named : details.subject = some subject) (aimed : details.address = some a) :
    r.next name .pointerAssign details =
      if subject = name then { r with target := if a = 0 then none else some a, through := none } else r := by
  cases details
  cases named
  cases aimed
  rfl

theorem next_write {a : Nat} (unnamed : details.subject = none) (written : details.address = some a) :
    r.next name .write details = if r.place = some a then { r with through := details.value } else r := by
  cases details
  cases unnamed
  cases written
  rfl

/-- Neither a block without a name nor a store in what is no pointer tells anything. -/
theorem next_allocate_unnamed (unnamed : details.subject = none) : r.next name .allocate details = r := by
  cases details
  cases unnamed
  rfl

theorem next_write_named (named : details.subject = some subject) : r.next name .write details = r := by
  cases details
  cases named
  rfl

/-- A store through a pointer is told only of a variable that has a block. -/
theorem place_next (placed : r.place = none → r.through = none)
    (nowhere : (r.next name operation details).place = none) : (r.next name operation details).through = none := by
  obtain told | ⟨-, a, told⟩ | ⟨-, -, target, told⟩ | ⟨-, here, through, told⟩ :=
      next_cases r name operation details <;>
    rw [told] at nowhere ⊢
  · exact placed nowhere
  · cases nowhere
  · exact absurd nowhere here

end Report

/-- The targets that are read from a trace are those of the stores under a name. -/
theorem lookup_pointerTargets (t : Trace) (name : String) :
    t.pointerTargets.lookup name = (report name t.toList).target := by
  unfold pointerTargets
  induction t.toList using List.reverseRecOn with
  | nil => rfl
  | append_singleton entries e ih =>
    rw [List.foldl_append, report_snoc]
    simp only [List.foldl_cons, List.foldl_nil]
    revert ih
    generalize entries.foldl _ [] = targets
    generalize report name entries = r
    intro ih
    obtain ⟨step, operation, line, subject, address, _⟩ := e
    cases operation with
    | pointerAssign =>
      rcases subject with _ | subject
      · exact ih
      · rcases address with _ | a
        · exact ih
        · rw [Report.next_pointerAssign rfl rfl]
          by_cases own : subject = name
          · rw [if_pos own, ← own]
            cases a with
            | zero => exact (lookup_filter_ne targets subject subject).trans (if_pos rfl)
            | succ a => exact ((puts_retarget subject (a + 1)).lookup targets subject).trans (if_pos rfl)
          · rw [if_neg own, ← ih]
            cases a with
            | zero => exact (lookup_filter_ne targets subject name).trans (if_neg (Ne.symm own))
            | succ a => exact ((puts_retarget subject (a + 1)).lookup targets name).trans (if_neg (Ne.symm own))
    | _ => exact ih.trans (Report.target_next fun same => by cases same).symm

/-- A store through a pointer is told only of a variable that has a block. -/
theorem through_report {name : String} {entries : List TraceEntry} (nowhere : (report name entries).place = none) :
    (report name entries).through = none := by
  induction entries using List.reverseRecOn with
  | nil => rfl
  | append_singleton entries e ih =>
    rw [report_snoc] at nowhere ⊢
    exact Report.place_next ih nowhere

/-- What was recorded, whether or not there was room for it, tells of every plain name what is known of it. -/
def Tells (t : Trace) (limit : Nat) (Known : String → Report → Prop) : Prop :=
  ∃ ops, t = (empty limit).recordAll ops ∧ ∀ name, PlainName name → Known name (report name (numbered ops))

namespace Tells

variable {t : Trace} {limit : Nat} {Known Known' : String → Report → Prop}

theorem record (h : t.Tells limit Known) {operation : Operation} {details : Details}
    (told : ∀ name r, PlainName name → Known name r → Known' name (r.next name operation details)) (line : Nat) :
    (t.record operation line details).Tells limit Known' := by
  obtain ⟨ops, rfl, known⟩ := h
  refine ⟨ops ++ [⟨operation, line, details⟩], ?_, fun name plain => ?_⟩
  · rw [recordAll_append]
    rfl
  · rw [numbered_append, report_snoc]
    exact told name _ plain (known name plain)

/-- Looking at memory tells nothing. -/
theorem looks (h : t.Tells limit Known) {ops : List Noted} (looks : ops.all (·.operation.looks) = true) :
    (t.recordAll ops).Tells limit Known := by
  induction ops generalizing t with
  | nil => exact h
  | cons op ops ih =>
    obtain ⟨operation, line, details⟩ := op
    rw [List.all_cons, Bool.and_eq_true] at looks
    obtain ⟨first, rest⟩ := looks
    refine ih (h.record (fun name r _ known => ?_) line) rest
    cases operation with
    | read | addressOf | dereference => exact known
    | _ => cases first

/-- The entries tell all if there was room for all operations. -/
theorem known (h : t.Tells limit Known) (whole : t.truncated = false) {name : String} (plain : PlainName name) :
    Known name (report name t.toList) := by
  obtain ⟨ops, rfl, known⟩ := h
  rw [recordAll_empty] at whole ⊢
  have room : ops.length ≤ limit := by simpa using whole
  rw [List.take_of_length_le room]
  exact known name plain

end Tells

end Trace

/-- What is told of a variable is true: where its block is, and if it is a pointer that may change, what it
holds. -/
structure Variable.Told (v : Variable) (r : Trace.Report) : Prop where
  place : r.place = v.address
  byName : v.type.isPointer = true → v.constant = false → r.through = none → r.target = v.pointsTo?
  through : v.type.isPointer = true → v.constant = false → ∀ text, r.through = some text →
    v.value.map Value.display = some text

namespace Variable.Told

variable {v : Variable} {r : Trace.Report}

/-- Only the place is told of what is not a pointer. -/
theorem of_type (place : r.place = v.address) (other : v.type.isPointer = false) : v.Told r where
  place := place
  byName pointer := by
    rw [other] at pointer
    cases pointer
  through pointer := by
    rw [other] at pointer
    cases pointer

/-- Nothing is told of a variable that has just been declared. -/
theorem of_starts (free : v.address = none) (empty : v.type.isPointer = true → v.constant = false → v.value = none) :
    v.Told {} where
  place := free.symm
  byName pointer changeable _ := by
    rw [pointsTo?, empty pointer changeable]
  through _ _ _ told := by cases told

theorem store (h : v.Told r) (x : Value) :
    Variable.Told { v with value := some x }
      { r with target := if x.address?.getD 0 = 0 then none else some (x.address?.getD 0), through := none } where
  place := h.place
  byName _ _ _ := by cases x <;> rfl
  through _ _ _ told := by cases told

theorem storeThrough (h : v.Told r) (x : Value) :
    Variable.Told { v with value := some x } { r with through := some x.display } where
  place := h.place
  byName _ _ told := by cases told
  through _ _ _ told := told

theorem bind (h : v.Told r) (a : Nat) : Variable.Told { v with address := some a } { r with place := some a } where
  place := rfl
  byName := h.byName
  through := h.through

end Variable.Told

/-- What is told of a name is true of the global variable that it stands for; if it stands for none, nothing is
told. -/
structure Scopes.Told (s : Scopes) (name : String) (r : Trace.Report) : Prop where
  declared {c : CellId} {v : Variable} : s.Names globalScope name c → s.cells[c]? = some v → v.Told r
  unknown : (∀ c, ¬s.Names globalScope name c) → r = {}

/-- Only the global scope is open, and no two of its names stand for one variable. -/
structure Memory.Alone (mem : Memory) : Prop where
  lifetimes : mem.Lifetimes
  depth : mem.scopes.depth = 1
  distinct {n n' : String} {c : CellId} :
    mem.scopes.Names globalScope n c → mem.scopes.Names globalScope n' c → n = n'

namespace Memory.Alone

variable {mem mem' : Memory} (h : mem.Alone)

include h

theorem current : mem.scopes.current = globalScope := congrArg (· - 1) h.depth

variable {c : CellId} {v : Variable} {name other : String} {r : Trace.Report}

theorem cell (named : mem.scopes.Names globalScope name c) : ∃ v, mem.scopes.cells[c]? = some v := by
  obtain ⟨v, -, there, -⟩ := h.lifetimes.named named
  exact ⟨v, there⟩

theorem lt_size (named : mem.scopes.Names globalScope name c) : c < mem.scopes.cells.size := by
  obtain ⟨v, there⟩ := h.cell named
  exact (Array.getElem?_eq_some_iff.1 there).1

theorem names_of_lookup (found : mem.scopes.lookup? mem.scopes.current name = some c) :
    mem.scopes.Names globalScope name c := by
  rw [h.current] at found
  exact (Scopes.names_of_lookup? h.lifetimes.flat found).elim (·) (·)

/-- A variable that has an address has a name. -/
theorem names_of_address {a : Nat} (there : mem.scopes.cells[c]? = some v) (placed : v.address = some a) :
    ∃ name, mem.scopes.Names globalScope name c := by
  obtain ⟨w, name, -, named⟩ := h.lifetimes.rooted there placed
  have global : w.owner = globalScope := Nat.lt_one_iff.1 (Nat.lt_of_lt_of_eq named.lt_depth h.depth)
  exact ⟨name, global ▸ named⟩

theorem change {V : Value → Prop} (change : Change V mem mem') : mem'.Alone := by
  obtain ⟨lifetimes, -, depth⟩ := h.lifetimes.change change
  refine ⟨lifetimes, depth.trans h.depth, ?_⟩
  cases change with
  | declare accepted =>
    intro n n' c first second
    rcases (Scopes.names_declare accepted _).1 first with old | ⟨-, rfl, rfl⟩ <;>
      rcases (Scopes.names_declare accepted _).1 second with old' | ⟨-, rfl, new⟩
    · exact h.distinct old old'
    · exact absurd (h.lt_size old) (new ▸ Nat.lt_irrefl _)
    · exact absurd (h.lt_size old') (Nat.lt_irrefl _)
    · rfl
  | _ => exact h.distinct

/-- A variable that is told to have a block is bound to its address. -/
theorem bound_of_told {a : Nat} (known : mem.scopes.Told name r) (placed : r.place = some a) :
    ∃ c, mem.scopes.Names globalScope name c ∧ mem.bound.lookup a = some c := by
  by_cases declared : ∃ c, mem.scopes.Names globalScope name c
  · obtain ⟨c, named⟩ := declared
    obtain ⟨v, there⟩ := h.cell named
    have address := (known.declared named there).place.symm.trans placed
    exact ⟨c, named, (h.lifetimes.mirrors.bound a c).2 ⟨v, there, address⟩⟩
  · rw [known.unknown fun c named => declared ⟨c, named⟩] at placed
    cases placed

/-- One variable changes, and with it what is told of its name, but of no other. -/
theorem told_update {f : Variable → Variable} {r' : Trace.Report} (named : mem.scopes.Names globalScope name c)
    (there : mem.scopes.cells[c]? = some v) (own : v.Told r → other = name → (f v).Told r')
    (rest : other ≠ name → r' = r) (known : mem.scopes.Told other r) : (mem.scopes.update c f).Told other r' := by
  by_cases same : other = name
  · subst same
    refine ⟨fun {d w} named' there' => ?_, fun unnamed => absurd named (unnamed c)⟩
    obtain rfl : d = c := Option.some.inj (((Scopes.names_update f).1 named').lookup?.symm.trans named.lookup?)
    obtain rfl : f v = w := by simpa [Scopes.update, Array.getElem?_modify, there] using there'
    exact own (known.declared named there) rfl
  · rw [rest same]
    refine ⟨fun {d w} named' there' => ?_, known.unknown⟩
    have apart : c ≠ d := by
      rintro rfl
      exact same (h.distinct named' named)
    rw [Scopes.cells_update_of_ne apart] at there'
    exact known.declared named' there'

/-- Nothing was told of a name that is declared. -/
theorem told_declare (accepted : mem.scopes.accepts mem.scopes.current name = true) (starts : v.Told {})
    (known : mem.scopes.Told other r) : (mem.scopes.declare mem.scopes.current name v).Told other r := by
  have names {n : String} {c : CellId} := Scopes.names_declare (j := globalScope) (n := n) (x := c) accepted v
  rw [h.current] at accepted names ⊢
  obtain ⟨-, free⟩ := Scopes.accepts_iff.1 accepted
  refine ⟨fun {c w} named there => ?_, fun unnamed => known.unknown fun c old => unnamed c (names.2 (.inl old))⟩
  rcases names.1 named with old | ⟨-, rfl, rfl⟩
  · obtain ⟨u, before⟩ := h.cell old
    cases there.symm.trans (Scopes.cells_addCell before)
    exact known.declared old before
  · cases there.symm.trans Array.getElem?_push_size
    rw [known.unknown free]
    exact starts

end Memory.Alone

/-- The trace tells of the variables what they hold. -/
def Machine.Reports (limit : Nat) (m : Machine σ) : Prop := m.trace.Tells limit m.scopes.Told

/-- So it does, while only the global scope is open. -/
structure Machine.Told (limit : Nat) (m : Machine σ) : Prop where
  alone : m.memory.Alone
  reports : m.Reports limit

namespace Machine.Told

variable {limit : Nat} {m : Machine σ}

theorem mirrors (inv : m.Told limit) : m.memory.Mirrors := inv.alone.lifetimes.mirrors

theorem named (inv : m.Told limit) {name : String} {c : CellId} {v : Variable}
    (found : m.find? name = some (c, v)) : m.scopes.Names globalScope name c :=
  inv.alone.names_of_lookup (find?_eq_some.1 found).1

/-- A variable changes, and an operation that names it tells of that. -/
theorem tells_update (inv : m.Told limit) {name : String} {c : CellId} {v : Variable}
    (found : m.find? name = some (c, v)) {f : Variable → Variable} {operation : Operation} {details : Details}
    (subject : details.subject = some name)
    (told : ∀ r : Trace.Report, v.Told r → (f v).Told (r.next name operation details)) (line : Nat) :
    (m.trace.record operation line details).Tells limit (m.scopes.update c f).Told := by
  refine inv.reports.record (fun other r _ known => ?_) line
  refine inv.alone.told_update (inv.named found) (cell_of_find? found) (fun before same => ?_) (fun apart => ?_) known
  · subst same
    exact told r before
  · exact Trace.Report.next_of_subject subject (Ne.symm apart)

/-- A store through a pointer is told of the variable that has its block at the address. -/
theorem tells_through (inv : m.Told limit) {a : Nat} {x : Value} {s : Scopes} (old : Option Value)
    (told : ∀ name r, m.scopes.Told name r →
      s.Told name (if r.place = some a then { r with through := some x.display } else r)) (line : Nat) :
    (m.trace.recordAll (Noted.storesThrough a x line old)).Tells limit s.Told := by
  have read : (m.trace.record .dereference line { address := some a }).Tells limit m.scopes.Told :=
    inv.reports.record (fun _ _ _ known => known) line
  refine read.record (fun name r _ known => ?_) line
  rw [Trace.Report.next_write rfl rfl]
  exact told name r known

/-- Whatever a step does to memory, the trace tells of it. -/
theorem effect (inv : m.Told limit) {V : Value → Prop} {mem : Memory} {ops : List Noted} (done : m.Effect V mem ops) :
    (m.trace.recordAll ops).Tells limit mem.scopes.Told := by
  cases done with
  | look looks => exact Trace.Tells.looks inv.reports looks
  | @store name c v x op found _ _ _ stores =>
    refine inv.tells_update found stores.subject (fun r told => ?_) op.line
    cases pointer : v.type.isPointer with
    | true =>
      obtain ⟨assigns, target⟩ := stores.pointer pointer
      rw [assigns, Trace.Report.next_pointerAssign stores.subject target, if_pos rfl]
      exact told.store x
    | false =>
      rw [stores.other pointer, Trace.Report.next_write_named stores.subject]
      exact .of_type told.place pointer
  | @storeElement name indices c v x plan op found planned _ subject =>
    -- A store in an element is told of no plain name, and an array is no pointer.
    obtain ⟨-, g, array, -⟩ := planElement_ok planned
    have there := cell_of_find? found
    have scalar : (v.setElement plan.position x).type.isPointer = false := by
      rw [Variable.type_setElement]
      exact DataType.isPointer_of_isArray ((inv.mirrors.plain there).array g array)
    refine inv.reports.record (fun other r plain known => ?_) op.line
    rw [Trace.Report.next_of_subject subject (plain name indices)]
    refine inv.alone.told_update (inv.named found) there (fun told _ => .of_type ?_ scalar) (fun _ => rfl) known
    rw [Variable.address_setElement]
    exact told.place
  | @storeThrough a line c v x old key there address =>
    obtain ⟨name, named⟩ := inv.alone.names_of_address there address
    refine inv.tells_through old (fun other r known => ?_) line
    refine inv.alone.told_update named there (fun told same => ?_) (fun apart => ?_) known
    · rw [if_pos (told.place.trans address)]
      exact told.storeThrough x
    · refine if_neg fun placed => apart ?_
      obtain ⟨d, named', bound⟩ := inv.alone.bound_of_told known placed
      cases key.symm.trans bound
      exact inv.alone.distinct named' named
  | @put a line x slot old _ key =>
    refine inv.tells_through old (fun name r known => ?_) line
    rw [if_neg]
    · exact known
    · intro placed
      obtain ⟨c, -, bound⟩ := inv.alone.bound_of_told known placed
      cases key.symm.trans bound
  | occupy _ unnamed =>
    refine inv.reports.record (fun other r _ known => ?_) _
    rw [Trace.Report.next_allocate_unnamed unnamed]
    exact known
  | vacate => exact inv.reports.record (fun _ _ _ known => known) _
  | @bind name c v a line note found free scalar placed =>
    have told : (m.trace.record .allocate line { subject := some name, address := some a, note }).Tells limit
        (m.scopes.update c fun v => { v with address := some a }).Told := by
      refine inv.tells_update found rfl (fun r before => ?_) line
      rw [Trace.Report.next_allocate rfl rfl, if_pos rfl]
      exact before.bind a
    exact told.record (fun _ _ _ known => known) line
  | declare accepted starts empty =>
    refine inv.reports.record (fun other r _ known => ?_) _
    exact inv.alone.told_declare accepted (.of_starts starts.address empty) known

/-- Memory changes at most once, and the trace tells of it. -/
theorem acts {Q : α → Machine σ → Prop} {x : Exec σ α}
    (step : m.memory.Mirrors → Acts (fun _ => True) m Q (x m)) :
    Keeps .nothing (Told limit) m (fun _ _ => True) x := by
  intro inv
  have ended := step inv.mirrors
  cases run : x m with
  | ok a m' =>
    rw [run] at ended
    obtain ⟨⟨mem, ops, done, rfl⟩, -⟩ := ended
    refine ⟨⟨⟨?_, inv.effect done⟩, trivial⟩, trivial⟩
    show mem.Alone
    rcases done.change with rfl | change
    · exact inv.alone
    · exact inv.alone.change change
  | error e m' =>
    rw [run] at ended
    obtain rfl : m' = m := ended
    exact ⟨inv, trivial⟩

theorem memoryRelated :
    Semantics.MemoryRelated (σ := σ) (.onLeft (Keeps .nothing (Told limit))) .nothing where
  find name line := acts fun _ => .find name line
  readVariable name line := acts fun _ => .readVariable name line
  readElement name indices line := acts fun _ => .readElement name line indices
  readThrough address line := acts fun _ => .readThrough line address
  counterValue name line _ := acts fun _ => .counterValue name line _
  addressOf name line := acts fun inv => .addressOf name line inv
  allocateBlock size tag line := acts fun _ => .allocateBlock line size tag
  freeBlock v line := acts fun _ => .freeBlock line v
  declare name type line := acts fun _ => .declare name line type
  declareConstant name _ line _ := acts fun _ => .declareConstant name line trivial
  assignVariable name _ line _ := acts (Q := fun _ _ => True) fun inv =>
    .assignVariable name line trivial inv fun _ _ _ _ => trivial
  assignElement name indices _ line _ := acts (Q := fun _ _ => True) fun _ =>
    .assignElement name line trivial indices fun _ _ _ _ _ _ => trivial
  assignThrough address _ line _ := acts (Q := fun _ _ => True) fun inv =>
    .assignThrough line trivial inv address (fun _ _ _ => trivial) fun _ _ _ _ _ _ => trivial
  counterCell name line := acts fun _ => .counterCell name line

theorem of_same {m' : Machine σ} (memory : m'.memory = m.memory) (trace : m'.trace = m.trace)
    (inv : m.Told limit) : m'.Told limit := by
  constructor
  · rw [memory]
    exact inv.alone
  · show m'.trace.Tells limit m'.memory.scopes.Told
    rw [memory, trace]
    exact inv.reports

theorem steps (ctx : Context σ) :
    Semantics.Steps (.onLeft (Keeps .nothing (Told limit))) .nothing Eq ctx ctx := by
  have control : ControlSteps fun _ => Preserves (Told limit : Machine σ → Prop) :=
    Preserves.controlSteps fun _ _ memory trace inv => inv.of_same memory trace
  exact (control.hostSteps (.checkBudget ctx.config)).steps Keeps.sequenced memoryRelated (fun step => step.keeps _)
    (fun _ => .true) ctx.config.traceLimit ctx.below

theorem tick (config : Config) (line : Nat) :
    Preserves (Told limit : Machine σ → Prop) (fun _ => True) (Exec.tick config line) :=
  (Preserves.modify fun _ inv => ⟨inv.alone, inv.reports⟩).bind fun _ _ => .checkBudget config line

theorem initial (config : Config) (draws : Draws) (state : σ) :
    (Machine.initial config draws state).Told config.traceLimit := by
  have unnamed (name : String) (c : CellId) : ¬Scopes.initial.Names globalScope name c := by
    rintro ⟨scope, live, named⟩
    cases live
    cases named
  constructor
  · exact ⟨.initial config.arenaSize, rfl, fun named => absurd named (unnamed _ _)⟩
  · exact ⟨[], rfl, fun name _ => ⟨fun named => absurd named (unnamed _ _), fun _ => rfl⟩⟩

/-- Throughout the run of a program without definitions the trace tells of the variables what they hold. -/
theorem of_reachable {p : Program} {host : Host σ} {config : Config} {draws : Draws} {state : σ}
    (undefined : p.definitions = []) (reached : Reachable p host config draws state m) :
    m.Told config.traceLimit :=
  reached.of_steps undefined (steps _) (fun m line => (tick config line).keeps m) (initial config draws state)

end Machine.Told

/-- In every state that the run of a program without definitions can reach, if there was room for all operations in
the trace, the trace tells of every declared pointer variable where its block is. The target that is read from the
trace is the address which the variable holds, and there is none if it is unassigned or NULL, unless the latest store
to the variable went through a pointer; then that store told its value. So the target is right of every variable
whose address was never taken. -/
theorem pointerTargets_follow_names {p : Program} {host : Host σ} {config : Config} {draws : Draws} {state : σ}
    {m : Machine σ} (undefined : p.definitions = []) (reached : Reachable p host config draws state m)
    (whole : m.trace.truncated = false) {name : String} (plain : PlainName name) {c : CellId} {v : Variable}
    (declared : m.find? name = some (c, v)) (pointer : v.type.isPointer = true) (changeable : v.constant = false) :
    (Trace.report name m.trace.toList).place = v.address ∧
    ((Trace.report name m.trace.toList).through = none → m.trace.pointerTargets.lookup name = v.pointsTo?) ∧
    (∀ text, (Trace.report name m.trace.toList).through = some text → v.value.map Value.display = some text) ∧
    (v.address = none → m.trace.pointerTargets.lookup name = v.pointsTo?) := by
  have inv : m.Told config.traceLimit := .of_reachable undefined reached
  have told : v.Told (Trace.report name m.trace.toList) :=
    (inv.reports.known whole plain).declared (inv.named declared) (cell_of_find? declared)
  have current (byName : (Trace.report name m.trace.toList).through = none) :
      m.trace.pointerTargets.lookup name = v.pointsTo? :=
    (m.trace.lookup_pointerTargets name).trans (told.byName pointer changeable byName)
  refine ⟨told.place, current, told.through pointer changeable, fun unplaced => current ?_⟩
  exact Trace.through_report (told.place.trans unplaced)

/-- A pointer is pointed at a variable, and set to NULL through a pointer to it. -/
def resetThroughPointer : Program where
  statements :=
    [.declare "x" .boolean ⟨1, 1⟩,
      .declare "p" (.pointer .boolean) ⟨2, 1⟩,
      .declare "q" (.pointer (.pointer .boolean)) ⟨3, 1⟩,
      .assign (.identifier "p" ⟨4, 1⟩) (.addressOf (.identifier "x" ⟨4, 6⟩) ⟨4, 5⟩) ⟨4, 1⟩,
      .assign (.identifier "q" ⟨5, 1⟩) (.addressOf (.identifier "p" ⟨5, 6⟩) ⟨5, 5⟩) ⟨5, 1⟩,
      .assign (.dereference (.identifier "q" ⟨6, 2⟩) ⟨6, 1⟩) (.literal .null ⟨6, 6⟩) ⟨6, 1⟩]

/-- Then it is pointed at the variable again. -/
def pointedAgain : Program where
  statements := resetThroughPointer.statements ++
    [.assign (.identifier "p" ⟨7, 1⟩) (.addressOf (.identifier "x" ⟨7, 6⟩) ⟨7, 5⟩) ⟨7, 1⟩]

theorem pointedAgain_current :
    ∃ m : Machine Script, Reachable pointedAgain Script.host { arenaSize := 1030 } 0 {} m ∧
      pointedAgain.definitions = [] ∧ m.trace.truncated = false ∧
      (∃ c v, m.find? "p" = some (c, v) ∧ v.type.isPointer = true ∧ v.constant = false ∧ v.address = some 1025) ∧
      m.trace.pointerTargets.lookup "p" = some 1024 := by
  let m := final (pointedAgain.exec Script.host { arenaSize := 1030 } (.initial { arenaSize := 1030 } 0 {}))
  have reached : Reachable pointedAgain Script.host { arenaSize := 1030 } 0 {} m := reachable_final _ _ _ _ _
  have shown : m.trace.truncated = false ∧ (Trace.report "p" m.trace.toList).through = none ∧
      (m.find? "p").map (fun found =>
        (found.2.type.isPointer, found.2.constant, found.2.address, found.2.pointsTo?)) =
      some (true, false, some 1025, some 1024) := by
    decide +kernel
  clear_value m
  obtain ⟨whole, byName, held⟩ := shown
  obtain ⟨⟨c, v⟩, declared, seen⟩ := Option.map_eq_some_iff.1 held
  obtain ⟨pointer, changeable, placed, aimed⟩ : _ ∧ _ ∧ _ ∧ _ := by simpa only [Prod.mk.injEq] using seen
  have plain : PlainName "p" := plainName_of_not_mem (by decide)
  have current := (pointerTargets_follow_names rfl reached whole plain declared pointer changeable).2.1 byName
  exact ⟨m, reached, rfl, whole, ⟨c, v, declared, pointer, changeable, placed⟩, current.trans aimed⟩

/-- The target of a pointer that was set to NULL through a pointer is that from before. -/
theorem resetThroughPointer_stale :
    let m := final (resetThroughPointer.exec Script.host { arenaSize := 1030 } (.initial { arenaSize := 1030 } 0 {}))
    resetThroughPointer.definitions = [] ∧ m.trace.truncated = false ∧
      (m.find? "p").map (fun found => (found.2.type.isPointer, found.2.constant, found.2.value.map Value.display)) =
        some (true, false, some "NULL") ∧
      m.trace.pointerTargets.lookup "p" = some 1024 := by
  decide +kernel

end Pseudocode
