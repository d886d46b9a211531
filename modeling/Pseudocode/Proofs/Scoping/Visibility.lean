import Pseudocode.Proofs.Memory.Scoping

/-!
What is visible from a scope. Scopes are opened inside live ones, closed from the inside, and given names, in any
order; those of these calls that succeed are the events of a history. A scope's parent is older than the scope, so
every walk outward ends, and all walks pass the same scopes (`Lineage`). Looking up a name and listing the visible
ones are both told by the history of these scopes (`visible_agrees_with_lookup`).
-/

namespace Pseudocode

/-- The first entry of every name. -/
def firsts : List (String × CellId) → List (String × CellId)
  | [] => []
  | entry :: rest => entry :: (firsts rest).filter (·.1 != entry.1)

section Firsts

variable {entries more : List (String × CellId)} {name : String} {c : CellId}

theorem mem_firsts : (name, c) ∈ firsts entries ↔ entries.lookup name = some c := by
  induction entries with
  | nil => simp [firsts]
  | cons entry rest ih =>
    obtain ⟨n, x⟩ := entry
    rw [firsts, List.mem_cons, List.mem_filter, ih, List.lookup_cons]
    by_cases same : name = n
    · simp [same, eq_comm]
    · simp [same, beq_false_of_ne same]

theorem nodup_firsts (entries : List (String × CellId)) : ((firsts entries).map Prod.fst).Nodup := by
  induction entries with
  | nil => exact List.nodup_nil
  | cons entry rest ih =>
    refine List.nodup_cons.2 ⟨?_, (List.filter_sublist.map Prod.fst).nodup ih⟩
    simp

theorem firsts_of_nodup (distinct : (entries.map Prod.fst).Nodup) : firsts entries = entries := by
  induction entries with
  | nil => rfl
  | cons entry rest ih =>
    obtain ⟨fresh, others⟩ := List.nodup_cons.1 distinct
    rw [firsts, ih others, List.filter_eq_self.2]
    intro other mem
    have different : other.1 ≠ entry.1 := fun same => fresh (same ▸ List.mem_map_of_mem mem)
    simpa using different

/-- Names of the first list hide those of the second. -/
theorem firsts_append :
    firsts (entries ++ more) =
      firsts entries ++ (firsts more).filter fun e => !(entries.map Prod.fst).contains e.1 := by
  induction entries with
  | nil => exact (List.filter_eq_self.2 fun _ _ => rfl).symm
  | cons entry rest ih =>
    rw [List.cons_append, firsts, ih, firsts, List.filter_append, List.filter_filter, List.cons_append]
    congr 3
    funext e
    rw [List.map_cons, List.contains_cons, Bool.not_or]
    rfl

/-- Names that are hidden already need not be hidden again. -/
theorem contains_hidden (hidden : List String) :
    (hidden ++ (entries.filter fun e => !hidden.contains e.1).map Prod.fst).contains name =
      (hidden.contains name || (entries.map Prod.fst).contains name) := by
  rw [Bool.eq_iff_iff]
  simp only [Bool.or_eq_true, List.contains_iff_mem, List.mem_append, List.mem_map, List.mem_filter,
    Bool.not_eq_true', ← Bool.not_eq_true]
  grind

end Firsts

/-- A call on scopes. A name is given to a cell of its own or to a cell that is there already. -/
inductive ScopeCall where
  | push (parent : ScopeId)
  | pop
  | declare (id : ScopeId) (name : String) (v : Variable)
  | link (id : ScopeId) (name : String) (cell : CellId)

/-- A call that has changed the scopes. -/
inductive ScopeEvent where
  | opened (id parent : ScopeId)
  | closed (id : ScopeId)
  | named (id : ScopeId) (name : String) (cell : CellId)

namespace ScopeEvent

/-- The name that a scope was given. -/
def nameIn (id : ScopeId) : ScopeEvent → Option (String × CellId)
  | .named j name cell => if j = id then some (name, cell) else none
  | .opened .. | .closed .. => none

/-- Whether a scope was opened. -/
def opens (id : ScopeId) : ScopeEvent → Bool
  | .opened j _ => j = id
  | .closed .. | .named .. => false

/-- The names that a scope was given since it was opened, in that order. -/
def declared (events : List ScopeEvent) (id : ScopeId) : List (String × CellId) :=
  ((events.reverse.takeWhile (!·.opens id)).filterMap (nameIn id)).reverse

variable {events : List ScopeEvent} {id j : ScopeId}

theorem declared_append (e : ScopeEvent) :
    declared (events ++ [e]) id = if e.opens id then [] else declared events id ++ (e.nameIn id).toList := by
  unfold declared
  rw [List.reverse_append, List.reverse_singleton, List.singleton_append, List.takeWhile_cons]
  cases e.opens id with
  | true => rfl
  | false =>
    rw [Bool.not_false, if_pos rfl, if_neg Bool.false_ne_true]
    cases own : e.nameIn id with
    | none => simp [List.filterMap_cons_none own]
    | some entry => simp [List.filterMap_cons_some own]

end ScopeEvent

open ScopeEvent

namespace Scopes

variable {s : Scopes} {id j : ScopeId} {name : String} {cell : CellId} {events : List ScopeEvent}

/-- The scopes after a call, also after one that is refused. -/
def next (s : Scopes) : ScopeCall → Scopes
  | .push parent => s.push parent
  | .pop => s.pop
  | .declare id name v => (s.declare? id name v).getD s
  | .link id name cell => (s.link? id name cell).getD s

/-- The event that a call is. -/
def event? (s : Scopes) : ScopeCall → Option ScopeEvent
  | .push parent => some (.opened s.depth parent)
  | .pop => s.innermost?.map fun _ => .closed s.current
  | .declare id name v => (s.declare? id name v).map fun _ => .named id name s.cells.size
  | .link id name cell => (s.link? id name cell).map fun _ => .named id name cell

/-- A scope is opened inside a live one. -/
def Permits (s : Scopes) : ScopeCall → Prop
  | .push parent => parent < s.depth
  | .pop | .declare .. | .link .. => True

/-- The scopes after some calls. -/
def after (s : Scopes) (calls : List ScopeCall) : Scopes := calls.foldl next s

/-- The events of some calls, in order. -/
def history (s : Scopes) : List ScopeCall → List ScopeEvent
  | [] => []
  | c :: rest => (s.event? c).toList ++ (s.next c).history rest

/-- Every call is permitted when it is made. -/
def PermitsAll (s : Scopes) : List ScopeCall → Prop
  | [] => True
  | c :: rest => s.Permits c ∧ (s.next c).PermitsAll rest

/-- A walk outward: a scope, its parent, the parent of that, up to a scope without one. -/
inductive Lineage (s : Scopes) : ScopeId → List ScopeId → Prop
  | root {id : ScopeId} {scope : Scope} : s.scope? id = some scope → scope.parent = none → Lineage s id [id]
  | inner {id parent : ScopeId} {scope : Scope} {ids : List ScopeId} :
    s.scope? id = some scope → scope.parent = some parent → Lineage s parent ids → Lineage s id (id :: ids)

/-- A scope has the names that it was given since it was opened, all different, and an older parent unless it is the
global one. -/
structure Keeps (events : List ScopeEvent) (id : ScopeId) (scope : Scope) : Prop where
  names : scope.names = declared events id
  distinct : (scope.names.map Prod.fst).Nodup
  older : ∀ parent, scope.parent = some parent → parent < id
  rooted : scope.parent = none → id = globalScope

/-- The scopes are as their history tells. -/
structure Chronicle (events : List ScopeEvent) (s : Scopes) : Prop where
  global : 0 < s.depth
  keeps : ∀ id scope, s.scope? id = some scope → Keeps events id scope

theorem scope?_isSome_iff : (∃ scope, s.scope? id = some scope) ↔ id < s.depth := by
  unfold scope? depth
  rw [← Option.isSome_iff_exists, isSome_getElem?]

theorem scope?_push (parent : ScopeId) :
    (s.push parent).scope? id = if id = s.depth then some (.empty (some parent)) else s.scope? id :=
  Array.getElem?_push

/-- The global scope is never closed. -/
theorem innermost?_eq_none_iff : s.innermost? = none ↔ ¬ 1 < s.depth := by
  by_cases inner : 1 < s.depth
  · have live : s.current < s.depth := Nat.sub_one_lt_of_lt inner
    obtain ⟨scope, there⟩ := scope?_isSome_iff.2 live
    simp [innermost?_of_inner inner, there, inner]
  · exact iff_of_true (if_neg inner) inner

theorem pop_of_global (alone : s.innermost? = none) : s.pop = s := if_neg (innermost?_eq_none_iff.1 alone)

/-- Closing a scope leaves the older ones alone. -/
theorem scope?_pop_of_lt (older : id < s.current) : s.pop.scope? id = s.scope? id := by
  unfold scope? pop
  split
  · exact Array.getElem?_pop.trans (if_pos older)
  · rfl

/-- A name is refused by a scope that is not there or has the name. -/
theorem accepts_eq_false_iff : s.accepts id name = false ↔
    s.depth ≤ id ∨ ∃ scope, s.scope? id = some scope ∧ name ∈ scope.names.map Prod.fst := by
  unfold accepts
  cases live : s.scope? id with
  | none =>
    have dead : ¬ id < s.depth := fun inside => by
      obtain ⟨scope, there⟩ := scope?_isSome_iff.2 inside
      rw [live] at there
      cases there
    simpa using Nat.not_lt.1 dead
  | some scope =>
    have inside : id < s.depth := scope?_isSome_iff.1 ⟨scope, live⟩
    have listed : (scope.get? name).isNone = false ↔ name ∈ scope.names.map Prod.fst := by
      rw [← Scope.lookup_names, Option.isNone_eq_false_iff, List.lookup_isSome_iff, List.mem_map]
      simp only [beq_iff_eq, @eq_comm _ name]
    simp only [listed, Option.some.injEq, exists_eq_left']
    exact ⟨.inr, fun h => h.resolve_left (Nat.not_le.2 inside)⟩

theorem Keeps.apart {scope : Scope} {e : ScopeEvent} (h : Keeps events id scope) (unopened : e.opens id = false)
    (unnamed : e.nameIn id = none) : Keeps (events ++ [e]) id scope := by
  refine ⟨?_, h.distinct, h.older, h.rooted⟩
  rw [declared_append, unopened, unnamed, h.names]
  simp

namespace Chronicle

theorem initial : Chronicle [] Scopes.initial := by
  refine ⟨Nat.zero_lt_one, fun id scope live => ?_⟩
  obtain ⟨inside, rfl⟩ := Array.getElem?_eq_some_iff.1 live
  obtain rfl : id = 0 := Nat.lt_one_iff.1 inside
  exact ⟨rfl, List.nodup_nil, nofun, fun _ => rfl⟩

variable (h : Chronicle events s)
include h

theorem push {parent : ScopeId} (inside : parent < s.depth) :
    Chronicle (events ++ [.opened s.depth parent]) (s.push parent) := by
  refine ⟨by simp, fun id scope live => ?_⟩
  rw [scope?_push] at live
  split at live
  · next top =>
    cases live
    refine ⟨?_, List.nodup_nil, ?_, nofun⟩
    · simp [declared_append, opens, top]
    · rintro _ ⟨⟩
      exact top ▸ inside
  · next other =>
    exact (h.keeps id scope live).apart (by simpa [opens] using Ne.symm other) rfl

theorem pop : Chronicle (events ++ [.closed s.current]) s.pop := by
  refine ⟨?_, fun id scope live => (h.keeps id scope (scope?_of_pop live)).apart rfl rfl⟩
  have some := h.global
  unfold depth Scopes.pop at *
  split
  · simp only [Array.size_pop]
    omega
  · exact some

theorem link (accepted : s.accepts id name = true) (cell : CellId) :
    Chronicle (events ++ [.named id name cell]) (s.link id name cell) := by
  refine ⟨depth_link.symm ▸ h.global, fun j scope live => ?_⟩
  rw [scope?_link] at live
  split at live
  · next same =>
    subst same
    obtain ⟨before, there, rfl⟩ := Option.map_eq_some_iff.1 live
    have keeps := h.keeps id before there
    have fresh : name ∉ before.names.map Prod.fst := fun listed => by
      rw [accepts_eq_false_iff.2 (.inr ⟨before, there, listed⟩)] at accepted
      cases accepted
    have free : before.get? name = none := Option.eq_none_iff_forall_ne_some.2 fun c own =>
      fresh (List.mem_map.2 ⟨(name, c), Scope.mem_names.2 own, rfl⟩)
    refine ⟨?_, ?_, keeps.older, keeps.rooted⟩
    · simp [declared_append, opens, nameIn, Scope.names_bind free, keeps.names]
    · rw [Scope.names_bind free, List.map_append, List.map_singleton]
      exact List.nodup_append.2 ⟨keeps.distinct, by simp, fun a old b new same => fresh (by simp_all)⟩
  · next other => exact (h.keeps j scope live).apart rfl (if_neg other)

/-- What one call does. -/
theorem next {c : ScopeCall} (permitted : s.Permits c) : Chronicle (events ++ (s.event? c).toList) (s.next c) := by
  cases c with
  | push parent => exact h.push permitted
  | pop =>
    show Chronicle (events ++ (s.innermost?.map _).toList) s.pop
    cases live : s.innermost? with
    | none =>
      rw [pop_of_global live]
      simpa using h
    | some scope => exact h.pop
  | declare id name v =>
    show Chronicle (events ++ ((s.declare? id name v).map _).toList) ((s.declare? id name v).getD s)
    have cells : Chronicle events (s.addCell v) := ⟨h.global, h.keeps⟩
    by_cases accepted : s.accepts id name = true
    · rw [declare?, if_pos accepted]
      exact cells.link accepted s.cells.size
    · rw [declare?, if_neg accepted]
      simpa using h
  | link id name cell =>
    show Chronicle (events ++ ((s.link? id name cell).map _).toList) ((s.link? id name cell).getD s)
    by_cases accepted : s.accepts id name = true
    · rw [link?, if_pos accepted]
      exact h.link accepted cell
    · rw [link?, if_neg accepted]
      simpa using h

/-- What a run of calls does. -/
theorem after {calls : List ScopeCall} (permitted : s.PermitsAll calls) :
    Chronicle (events ++ s.history calls) (s.after calls) := by
  induction calls generalizing s events with
  | nil => simpa [history, Scopes.after] using h
  | cons c rest ih =>
    have later := ih (h.next permitted.1) permitted.2
    rwa [List.append_assoc] at later

/-- Every walk outward ends with the global scope. -/
theorem exists_lineage (inside : id < s.depth) :
    ∃ ids, s.Lineage id ids ∧ ids.length ≤ id + 1 ∧ (∀ j ∈ ids, j ≤ id) ∧ ids.Pairwise (· > ·) ∧
      ids.getLast? = some globalScope := by
  induction id using Nat.strongRecOn with
  | ind id ih =>
    obtain ⟨scope, live⟩ := scope?_isSome_iff.2 inside
    have keeps := h.keeps id scope live
    cases parent : scope.parent with
    | none =>
      obtain rfl := keeps.rooted parent
      exact ⟨[globalScope], .root live parent, by simp, by simp, List.pairwise_singleton _ _, rfl⟩
    | some outer =>
      have older := keeps.older outer parent
      obtain ⟨ids, walk, short, below, falling, last⟩ := ih outer older (Nat.lt_trans older inside)
      have beneath (j : ScopeId) (mem : j ∈ ids) : j < id := Nat.lt_of_le_of_lt (below j mem) older
      refine ⟨id :: ids, .inner live parent walk, ?_, ?_, ?_, ?_⟩
      · exact Nat.succ_le_succ (Nat.le_trans short older)
      · exact List.forall_mem_cons.2 ⟨Nat.le_refl id, fun j mem => Nat.le_of_lt (beneath j mem)⟩
      · exact List.pairwise_cons.2 ⟨beneath, falling⟩
      · rw [List.getLast?_cons, last]
        rfl

theorem lookupFrom_eq {ids : List ScopeId} {n : Nat} (walk : s.Lineage id ids) (enough : ids.length ≤ n) :
    s.lookupFrom name n id = (ids.flatMap (declared events)).lookup name := by
  induction walk generalizing n with
  | root live parent =>
    obtain ⟨n, rfl⟩ := Nat.exists_eq_add_one.2 enough
    rw [lookupFrom, live, List.flatMap_singleton, ← (h.keeps _ _ live).names, Scope.lookup_names]
    simp only [parent]
    cases Scope.get? _ name <;> rfl
  | inner live parent _ ih =>
    obtain ⟨n, rfl⟩ := Nat.exists_eq_add_one.2 (Nat.lt_of_lt_of_le (Nat.succ_pos _) enough)
    rw [lookupFrom, live, List.flatMap_cons, List.lookup_append, ← (h.keeps _ _ live).names, Scope.lookup_names]
    simp only [parent, ih (Nat.le_of_succ_le_succ enough)]
    cases Scope.get? _ name <;> rfl

/-- A walk lists what no scope further in has hidden. -/
theorem visibleFrom_eq {ids : List ScopeId} {n : Nat} (walk : s.Lineage id ids) (enough : ids.length ≤ n)
    (hidden : List String) :
    s.visibleFrom hidden n id = (firsts (ids.flatMap (declared events))).filter fun e => !hidden.contains e.1 := by
  induction walk generalizing n hidden with
  | root live parent =>
    obtain ⟨n, rfl⟩ := Nat.exists_eq_add_one.2 enough
    have keeps := h.keeps _ _ live
    rw [visibleFrom, live, List.flatMap_singleton, ← keeps.names, firsts_of_nodup keeps.distinct]
    simp only [parent]
  | inner live parent _ ih =>
    obtain ⟨n, rfl⟩ := Nat.exists_eq_add_one.2 (Nat.lt_of_lt_of_le (Nat.succ_pos _) enough)
    have keeps := h.keeps _ _ live
    rw [visibleFrom, live, List.flatMap_cons, ← keeps.names, firsts_append, firsts_of_nodup keeps.distinct,
      List.filter_append, List.filter_filter]
    simp only [parent, ih (Nat.le_of_succ_le_succ enough)]
    congr 2
    funext e
    rw [contains_hidden, Bool.not_or]

end Chronicle

/-- A scope is closed with all the names that it was given, each of them once, and the others stay as they are. -/
theorem Chronicle.closes {scope : Scope} (h : Chronicle events s) (live : s.innermost? = some scope) :
    scope.names = declared events s.current ∧ (scope.names.map Prod.fst).Nodup ∧ s.pop.depth = s.current ∧
      ∀ id < s.current, s.pop.scope? id = s.scope? id := by
  have keeps := h.keeps _ _ (scope?_of_innermost? live)
  have inner : 1 < s.depth := Classical.not_not.1 fun alone => by
    rw [innermost?_eq_none_iff.2 alone] at live
    cases live
  exact ⟨keeps.names, keeps.distinct, depth_pop inner, fun id older => scope?_pop_of_lt older⟩

/-- A scope refuses a name if it is not live, or has got the name since it was opened. -/
theorem Chronicle.accepts_iff (h : Chronicle events s) :
    s.accepts id name = false ↔ s.depth ≤ id ∨ name ∈ (declared events id).map Prod.fst := by
  rw [accepts_eq_false_iff]
  by_cases dead : s.depth ≤ id
  · exact iff_of_true (.inl dead) (.inl dead)
  · obtain ⟨scope, live⟩ := scope?_isSome_iff.2 (Nat.not_le.1 dead)
    simp [dead, live, ← (h.keeps id scope live).names]

/-- A call that is refused changes nothing. -/
theorem next_of_refused {c : ScopeCall} (refused : s.event? c = none) : s.next c = s := by
  cases c with
  | push parent => cases refused
  | pop => exact pop_of_global (Option.map_eq_none_iff.1 refused)
  | declare id name v =>
    rw [next, Option.map_eq_none_iff.1 refused]
    rfl
  | link id name cell =>
    rw [next, Option.map_eq_none_iff.1 refused]
    rfl

/-- What the names of scopes are after any calls. Walks outward end, and visit scopes that are older and older. The
visible names are those that the scopes on the way were given, each scope's in the order of its declarations, less
the hidden ones; no name is listed twice, and what is listed is what is looked up. A scope refuses a name exactly if
it is not live or has the name, and what is refused changes nothing. The innermost scope is closed with the names
that it was given; the global scope stays. -/
theorem visible_agrees_with_lookup (calls : List ScopeCall) (permitted : Scopes.initial.PermitsAll calls) :
    let s := Scopes.initial.after calls
    let own := declared (Scopes.initial.history calls)
    (∀ id < s.depth, ∃ ids, s.Lineage id ids ∧ ids.Pairwise (· > ·) ∧ ids.getLast? = some globalScope ∧
        (∀ n, s.depth ≤ n → s.visibleFrom [] n id = s.visible id ∧
          ∀ name, s.lookupFrom name n id = s.lookup? id name) ∧
        s.visible id = firsts (ids.flatMap own) ∧ ((s.visible id).map Prod.fst).Nodup ∧
        ∀ name c, (name, c) ∈ s.visible id ↔ s.lookup? id name = some c) ∧
      (∀ id name, (∀ c, s.link? id name c = none ↔ s.depth ≤ id ∨ name ∈ (own id).map Prod.fst) ∧
        ∀ v, s.declare? id name v = none ↔ s.depth ≤ id ∨ name ∈ (own id).map Prod.fst) ∧
      (∀ c, s.event? c = none → s.next c = s) ∧
      (∀ scope, s.innermost? = some scope → scope.names = own s.current ∧ (scope.names.map Prod.fst).Nodup ∧
        s.pop.depth = s.current ∧ ∀ id < s.current, s.pop.scope? id = s.scope? id) ∧
      (s.innermost? = none ↔ s.depth = 1) ∧ globalScope < s.pop.depth := by
  intro s own
  have h : Chronicle (Scopes.initial.history calls) s := Chronicle.initial.after permitted
  refine ⟨fun id inside => ?_, fun id name => ⟨fun c => ?_, fun v => ?_⟩, fun c => next_of_refused,
    fun scope => h.closes, ?_, h.pop.global⟩
  · obtain ⟨ids, walk, short, -, falling, last⟩ := h.exists_lineage inside
    have lists (n : Nat) (enough : s.depth ≤ n) : s.visibleFrom [] n id = firsts (ids.flatMap own) := by
      rw [h.visibleFrom_eq walk (Nat.le_trans short (Nat.le_trans inside enough))]
      exact List.filter_eq_self.2 fun _ _ => rfl
    have finds (name : String) (n : Nat) (enough : s.depth ≤ n) :
        s.lookupFrom name n id = (ids.flatMap own).lookup name :=
      h.lookupFrom_eq walk (Nat.le_trans short (Nat.le_trans inside enough))
    have listed : s.visible id = firsts (ids.flatMap own) := lists s.depth (Nat.le_refl _)
    have found (name : String) : s.lookup? id name = (ids.flatMap own).lookup name :=
      finds name s.depth (Nat.le_refl _)
    refine ⟨ids, walk, falling, last, fun n enough => ⟨?_, fun name => ?_⟩, listed, ?_, fun name c => ?_⟩
    · rw [lists n enough, listed]
    · rw [finds name n enough, found]
    · rw [listed]
      exact nodup_firsts _
    · rw [listed, found]
      exact mem_firsts
  · rw [link?, ← h.accepts_iff]
    simp
  · rw [declare?, ← h.accepts_iff]
    simp
  · have global := h.global
    rw [innermost?_eq_none_iff]
    omega

/-- Two scopes inside each other, which hide each a name of the global one: the outer of them by a further name for
the cell that it hides, the inner one, opened where another was closed before, by a cell of its own. -/
def shadowing : List ScopeCall :=
  let x : Variable := .declared .integer none globalScope
  [.declare 0 "x" x, .declare 0 "y" x, .push 0, .declare 1 "z" x, .link 1 "x" 0, .link 1 "z" 1, .push 1,
    .declare 2 "u" x, .pop, .push 1, .declare 2 "y" x, .link 5 "v" 0]

theorem shadowing_visible :
    Scopes.initial.PermitsAll shadowing ∧
      (Scopes.initial.after shadowing).visible 2 = [("y", 4), ("z", 2), ("x", 0)] ∧
      ∀ name c, (name, c) ∈ (Scopes.initial.after shadowing).visible 2 ↔
        (Scopes.initial.after shadowing).lookup? 2 name = some c := by
  have permitted : Scopes.initial.PermitsAll shadowing := by
    simp only [shadowing, PermitsAll, Permits]
    decide
  have inside : 2 < (Scopes.initial.after shadowing).depth := by decide
  obtain ⟨ids, -, -, -, -, -, -, agrees⟩ := (visible_agrees_with_lookup shadowing permitted).1 2 inside
  exact ⟨permitted, by decide, agrees⟩

end Scopes

end Pseudocode
