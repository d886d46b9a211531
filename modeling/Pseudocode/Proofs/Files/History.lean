import Mathlib.Data.List.Induction
import Pseudocode.FileStore
import Pseudocode.Proofs.Entries

/-!
What was done with files, and what they hold. An event is one change that a statement makes (`FileEvent`); it
concerns the file of one name. After every history of events the buffer of a name holds what the events say
(`Reached.recorded`): the lines written since it was opened to be written, behind those that it held when it was
opened to be extended; or, when it was opened to be read, the content that it was opened with, if there was any.
-/

namespace Pseudocode

namespace FileStore

/-- The names of files that have a buffer. -/
def names (s : FileStore) : List String := s.files.map Prod.fst

/-- A change of one buffer. -/
structure Sets (s : FileStore) (name : String) (b : FileBuffer) (s' : FileStore) : Prop where
  get? (other : String) : s'.get? other = if other = name then some b else s.get? other
  names : s.names.Nodup → s'.names.Nodup

theorem puts_putIn (name : String) (b : FileBuffer) : Puts name b (putIn name b) where
  nil := rfl
  cons _ _ := by simp [putIn]

theorem sets_put (s : FileStore) (name : String) (b : FileBuffer) : s.Sets name b (s.put name b) where
  get? := (puts_putIn name b).lookup s.files
  names := (puts_putIn name b).nodup_keys

theorem names_append (s : FileStore) (name text : String) : (s.append name text).names = s.names := by
  obtain ⟨files⟩ := s
  show (appendIn name text files).map Prod.fst = files.map Prod.fst
  induction files with
  | nil => rfl
  | cons entry rest ih =>
    by_cases here : entry.1 = name <;> simp [appendIn, here, ih]

theorem get?_append (s : FileStore) (name text other : String) :
    (s.append name text).get? other =
      if other = name then (s.get? name).map fun b => { b with lines := b.lines.push text } else s.get? other := by
  obtain ⟨files⟩ := s
  show (appendIn name text files).lookup other = if other = name then (files.lookup name).map _ else files.lookup other
  induction files with
  | nil => by_cases same : other = name <;> simp [appendIn, same]
  | cons entry rest ih =>
    obtain ⟨key, old⟩ := entry
    by_cases here : key = name
    · by_cases same : other = name <;> simp [appendIn, lookup_cons, here, same]
    · simp only [appendIn, beq_iff_eq, here, if_false, lookup_cons, ih]
      by_cases same : other = name
      · simp [same, Ne.symm here]
      · simp [same]

theorem sets_append {s : FileStore} {name : String} {b : FileBuffer} (found : s.get? name = some b) (text : String) :
    s.Sets name { b with lines := b.lines.push text } (s.append name text) where
  get? other := by
    rw [get?_append, found]
    rfl
  names distinct := by
    rw [names_append]
    exact distinct

theorem opened_eq_ok {s : FileStore} {name : String} {b : FileBuffer} {mode : FileMode}
    (h : s.opened name = .ok (b, mode)) : s.get? name = some b ∧ b.mode = some mode := by
  unfold opened at h
  split at h
  · cases h
  case h_2 b' there =>
    split at h
    · cases h
    case h_2 mode' open_ =>
      cases h
      exact ⟨there, open_⟩

end FileStore

/-- A change that a statement makes to the files. -/
inductive FileEvent where
  | opened (name : String) (mode : FileMode) (content : Option String)
  | closed (name : String)
  | wrote (name text : String)
  | read (name line : String)

namespace FileEvent

def name : FileEvent → String
  | .opened name .. | .closed name | .wrote name _ | .read name _ => name

/-- The change leads from one store to another. -/
def Turns (e : FileEvent) (s s' : FileStore) : Prop :=
  match e with
  | .opened name mode content => s.openFile name mode content = .ok s'
  | .closed name => s.close name = .ok s'
  | .wrote name text => s.writeLine name text = .ok s'
  | .read name line => s.readLine name = .ok (line, s')

/-- What becomes of the buffer that a file has, if it has one. -/
inductive Alters : FileEvent → Option FileBuffer → FileBuffer → Prop
  | rewrite {name : String} {content : Option String} {old : Option FileBuffer} :
    old.bind (·.mode) = none → Alters (.opened name .write content) old ⟨#[], some .write, 0, true⟩
  | extend {name : String} {content : Option String} {old : Option FileBuffer} :
    old.bind (·.mode) = none → Alters (.opened name .append content) old
      ⟨(old.getD .empty).lines, some .append, 0, true⟩
  | load {name text : String} {old : Option FileBuffer} :
    old.bind (·.mode) = none → Alters (.opened name .read (some text)) old
      ⟨(Text.lines text).toArray, some .read, 0, (old.getD .empty).modified⟩
  | reread {name : String} {b : FileBuffer} :
    b.mode = none → Alters (.opened name .read none) (some b) ⟨b.lines, some .read, 0, b.modified⟩
  | close {name : String} {b : FileBuffer} {mode : FileMode} :
    b.mode = some mode → Alters (.closed name) (some b) { b with mode := none }
  | write {name text : String} {b : FileBuffer} {mode : FileMode} :
    b.mode = some mode → mode ≠ .read → Alters (.wrote name text) (some b) { b with lines := b.lines.push text }
  | read {name line : String} {b : FileBuffer} :
    b.mode = some .read → b.lines[b.cursor]? = some line →
      Alters (.read name line) (some b) { b with cursor := b.cursor + 1 }

end FileEvent

namespace FileStore

open FileEvent

variable {s s' : FileStore} {name : String}

theorem closed_of_isOpen (closed : s.isOpen name = false) : (s.get? name).bind (·.mode) = none := by
  unfold isOpen at closed
  cases found : s.get? name with
  | none => rfl
  | some b =>
    rw [found] at closed
    simpa using closed

theorem openFile_alters {mode : FileMode} {content : Option String} (h : s.openFile name mode content = .ok s') :
    ∃ b, Alters (.opened name mode content) (s.get? name) b ∧ s.Sets name b s' := by
  unfold openFile at h
  cases open_ : s.isOpen name with
  | true => simp [open_] at h
  | false =>
    have closed := closed_of_isOpen open_
    simp only [open_, Bool.false_eq_true, if_false] at h
    cases mode with
    | read =>
      cases content with
      | some text =>
        cases h
        exact ⟨_, .load closed, sets_put s name _⟩
      | none =>
        cases found : s.get? name with
        | none => simp [found] at h
        | some b =>
          simp only [found] at h
          cases h
          rw [found] at closed
          exact ⟨_, .reread closed, sets_put s name _⟩
    | write =>
      cases h
      exact ⟨_, .rewrite closed, sets_put s name _⟩
    | append =>
      cases h
      exact ⟨_, .extend closed, sets_put s name _⟩

theorem close_alters (h : s.close name = .ok s') :
    ∃ b, Alters (.closed name) (s.get? name) b ∧ s.Sets name b s' := by
  unfold close at h
  cases found : s.get? name with
  | none => simp [found] at h
  | some b =>
    simp only [found] at h
    split at h
    case isTrue open_ =>
      cases h
      obtain ⟨mode, given⟩ := Option.isSome_iff_exists.1 open_
      exact ⟨_, .close given, sets_put s name _⟩
    · cases h

theorem writeLine_alters {text : String} (h : s.writeLine name text = .ok s') :
    ∃ b, Alters (.wrote name text) (s.get? name) b ∧ s.Sets name b s' := by
  unfold writeLine checkWritable at h
  cases found : s.opened name with
  | error e =>
    rw [found] at h
    cases h
  | ok answer =>
    obtain ⟨b, mode⟩ := answer
    obtain ⟨there, given⟩ := opened_eq_ok found
    rw [found] at h
    change ((if mode = .read then throw (FileError.wrongMode name .write mode) else pure ()) >>=
      fun _ => pure (s.append name text)) = Except.ok s' at h
    by_cases reading : mode = .read
    · rw [if_pos reading] at h
      cases h
    · rw [if_neg reading] at h
      cases h
      rw [there]
      exact ⟨_, .write given reading, sets_append there text⟩

theorem readLine_alters {line : String} (h : s.readLine name = .ok (line, s')) :
    ∃ b, Alters (.read name line) (s.get? name) b ∧ s.Sets name b s' := by
  unfold readLine at h
  cases found : s.opened name with
  | error e =>
    rw [found] at h
    cases h
  | ok answer =>
    obtain ⟨b, mode⟩ := answer
    obtain ⟨there, given⟩ := opened_eq_ok found
    rw [found] at h
    change (if mode = .read then _ else _) = Except.ok (line, s') at h
    split at h
    case isTrue reading =>
      split at h
      case h_1 next here =>
        cases h
        rw [there]
        exact ⟨_, .read (reading ▸ given) here, sets_put s name _⟩
      · cases h
    · cases h

end FileStore

namespace FileEvent

open FileStore

/-- An event changes one buffer. -/
theorem Turns.alters {s s' : FileStore} {e : FileEvent} (h : e.Turns s s') :
    ∃ b, e.Alters (s.get? e.name) b ∧ s.Sets e.name b s' := by
  cases e with
  | opened name mode content => exact openFile_alters h
  | closed name => exact close_alters h
  | wrote name text => exact writeLine_alters h
  | read name line => exact readLine_alters h

variable (name : String)

/-- What a file holds after an event, if it held `lines` before. -/
def leaves (lines : List String) : FileEvent → List String
  | .opened other .write _ => if other = name then [] else lines
  | .opened other .read (some text) => if other = name then Text.lines text else lines
  | .wrote other text => if other = name then lines ++ [text] else lines
  | _ => lines

/-- How a file is open after an event. -/
def admits (mode : Option FileMode) : FileEvent → Option FileMode
  | .opened other mode' _ => if other = name then some mode' else mode
  | .closed other => if other = name then none else mode
  | _ => mode

/-- What has been read of a file since it was opened. -/
def takes (lines : List String) : FileEvent → List String
  | .opened other .. => if other = name then [] else lines
  | .read other line => if other = name then lines ++ [line] else lines
  | _ => lines

/-- The file is opened to be written or extended. -/
def Claims : FileEvent → Prop
  | .opened other mode _ => other = name ∧ mode ≠ .read
  | _ => False

theorem Claims.name_eq {name : String} {e : FileEvent} (h : e.Claims name) : e.name = name := by
  cases e <;> first | exact h.1 | exact h.elim

/-- The lines that a file holds after some events. -/
def held (es : List FileEvent) : List String := es.foldl (leaves name) []

/-- How a file is open after some events. -/
def modeAfter (es : List FileEvent) : Option FileMode := es.foldl (admits name) none

/-- The lines that were read of a file since it was opened. -/
def taken (es : List FileEvent) : List String := es.foldl (takes name) []

/-- The line that an event reads of a file. -/
def lineRead? : FileEvent → Option String
  | .read other line => if other = name then some line else none
  | _ => none

/-- The line that an event adds to a file. -/
def lineWritten? : FileEvent → Option String
  | .wrote other text => if other = name then some text else none
  | _ => none

/-- The file loses the lines that it holds. -/
def Replaces : FileEvent → Prop
  | .opened other .write _ => other = name
  | .opened other .read (some _) => other = name
  | _ => False

variable {name} {e : FileEvent} {es : List FileEvent}

section Others

variable (other : e.name ≠ name)

include other

/-- Events that concern other files. -/
theorem leaves_other (lines : List String) : leaves name lines e = lines := by
  rcases e with ⟨n, _ | _ | _, _ | _⟩ | _ | _ | _ <;> first | rfl | exact if_neg other

theorem admits_other (mode : Option FileMode) : admits name mode e = mode := by
  cases e <;> first | rfl | exact if_neg other

theorem takes_other (lines : List String) : takes name lines e = lines := by
  cases e <;> first | rfl | exact if_neg other

theorem lineRead?_other : lineRead? name e = none := by
  cases e <;> first | rfl | exact if_neg other

theorem lineWritten?_other : lineWritten? name e = none := by
  cases e <;> first | rfl | exact if_neg other

theorem not_claims_other : ¬ e.Claims name := by
  cases e <;> first | exact id | exact fun claims => other claims.1

end Others

/-- What no event moves stays. -/
theorem foldl_of_still {α : Type} {f : α → FileEvent → α} (still : ∀ e ∈ es, ∀ a, f a e = a) (a : α) :
    es.foldl f a = a := by
  induction es with
  | nil => rfl
  | cons e es ih =>
    obtain ⟨first, others⟩ := List.forall_mem_cons.1 still
    rw [List.foldl_cons, first, ih others]

@[simp]
theorem held_snoc : held name (es ++ [e]) = leaves name (held name es) e := List.foldl_concat ..

@[simp]
theorem modeAfter_snoc : modeAfter name (es ++ [e]) = admits name (modeAfter name es) e := List.foldl_concat ..

@[simp]
theorem taken_snoc : taken name (es ++ [e]) = takes name (taken name es) e := List.foldl_concat ..

/-- A file that does not lose its lines holds one more if one is written. -/
theorem leaves_eq (kept : ¬ e.Replaces name) (lines : List String) :
    leaves name lines e = lines ++ (e.lineWritten? name).toList := by
  by_cases same : e.name = name
  · subst same
    rcases e with ⟨other, _ | _ | _, _ | text⟩ | _ | _ | _ <;>
      simp_all [leaves, Replaces, lineWritten?, FileEvent.name]
  · rw [leaves_other same, lineWritten?_other same]
    exact (List.append_nil lines).symm

/-- Lines stay in a file, with those that are written behind them, unless it loses them. -/
theorem held_append (before : List FileEvent) (kept : ∀ e ∈ es, ¬ e.Replaces name) :
    held name (before ++ es) = held name before ++ es.filterMap (lineWritten? name) := by
  induction es using List.reverseRecOn with
  | nil => simp
  | append_singleton es e ih =>
    obtain ⟨earlier, last⟩ := List.forall_mem_append.1 kept
    rw [← List.append_assoc, held_snoc, leaves_eq (last e (List.mem_singleton_self e)), ih earlier,
      List.filterMap_append, List.append_assoc]
    cases written : e.lineWritten? name <;> simp [written]

end FileEvent

open FileEvent

/-- A buffer is what events have made of it. -/
structure FileBuffer.Records (b : FileBuffer) (name : String) (es : List FileEvent) : Prop where
  lines : b.lines.toList = held name es
  mode : b.mode = modeAfter name es
  reading : b.mode = some .read → b.cursor ≤ b.lines.size ∧ taken name es = (held name es).take b.cursor
  modified : b.modified = true ↔ ∃ e ∈ es, e.Claims name

/-- A file without a buffer has not been concerned. -/
def Recorded (name : String) (es : List FileEvent) : Option FileBuffer → Prop
  | none => ∀ e ∈ es, e.name ≠ name
  | some b => b.Records name es

namespace Recorded

variable {name : String} {es : List FileEvent} {old : Option FileBuffer} {e : FileEvent} {b : FileBuffer}

theorem lines_eq (h : Recorded name es old) : (old.getD .empty).lines.toList = held name es := by
  cases old with
  | none => exact (foldl_of_still (fun e mem => leaves_other (h e mem)) []).symm
  | some b => exact FileBuffer.Records.lines h

theorem mode_eq (h : Recorded name es old) : old.bind (·.mode) = modeAfter name es := by
  cases old with
  | none => exact (foldl_of_still (fun e mem => admits_other (h e mem)) none).symm
  | some b => exact FileBuffer.Records.mode h

theorem modified_iff (h : Recorded name es old) :
    (old.getD .empty).modified = true ↔ ∃ e ∈ es, e.Claims name := by
  cases old with
  | none =>
    refine iff_of_false Bool.false_ne_true ?_
    rintro ⟨e, mem, claims⟩
    exact not_claims_other (h e mem) claims
  | some b => exact FileBuffer.Records.modified h

theorem other (h : Recorded name es old) (other : e.name ≠ name) : Recorded name (es ++ [e]) old := by
  cases old with
  | none => exact List.forall_mem_append.2 ⟨h, List.forall_mem_singleton.2 other⟩
  | some b =>
    obtain ⟨lines, mode, reading, modified⟩ := h
    refine ⟨?_, ?_, ?_, ?_⟩
    · rw [held_snoc, leaves_other other, lines]
    · rw [modeAfter_snoc, admits_other other, mode]
    · rw [held_snoc, leaves_other other, taken_snoc, takes_other other]
      exact reading
    · simp [modified, not_claims_other other]

/-- An event leaves behind what it says. -/
theorem step (h : Recorded e.name es old) (alters : e.Alters old b) : b.Records e.name (es ++ [e]) := by
  have lines := h.lines_eq
  have modified := h.modified_iff
  cases alters with
  | rewrite closed => exact ⟨by simp [leaves, name], by simp [admits, name], nofun, by simp [Claims, name]⟩
  | extend closed =>
    exact ⟨by simpa [leaves, name] using lines, by simp [admits, name], nofun, by simp [Claims, name]⟩
  | load closed =>
    refine ⟨by simp [leaves, name], by simp [admits, name], fun _ => ⟨Nat.zero_le _, by simp [takes, name]⟩, ?_⟩
    simpa [Claims, name] using modified
  | reread closed =>
    refine ⟨by simpa [leaves, name] using lines, by simp [admits, name],
      fun _ => ⟨Nat.zero_le _, by simp [takes, name]⟩, ?_⟩
    simpa [Claims, name] using modified
  | close open_ =>
    refine ⟨by simpa [leaves, name] using lines, by simp [admits, name], nofun, ?_⟩
    simpa [Claims, name] using modified
  | write open_ writing =>
    refine ⟨by simpa [leaves, name] using lines, by simpa [admits] using h.mode, fun reading => ?_, ?_⟩
    · exact absurd (Option.some.inj (open_.symm.trans reading)) writing
    · simpa [Claims, name] using modified
  | @read other line b open_ here =>
    obtain ⟨below, before⟩ : b.cursor ≤ b.lines.size ∧ taken other es = (held other es).take b.cursor :=
      h.reading open_
    have next := (Array.getElem?_eq_some_iff.1 here).1
    refine ⟨by simpa [leaves, name] using lines, by simpa [admits] using h.mode, fun _ => ⟨next, ?_⟩, ?_⟩
    · have read : (held other es)[b.cursor]? = some line := by
        rw [← show b.lines.toList = held other es from lines, Array.getElem?_toList, here]
      simp [takes, leaves, name, before, List.take_add_one, read]
    · simpa [Claims, name] using modified

end Recorded

/-- The stores that events lead to, where there were no files before. -/
inductive Reached : List FileEvent → FileStore → Prop
  | start : Reached [] .empty
  | step {es : List FileEvent} {e : FileEvent} {s s' : FileStore} :
    Reached es s → e.Turns s s' → Reached (es ++ [e]) s'

namespace Reached

variable {name : String} {es before : List FileEvent} {s : FileStore} {e : FileEvent}

theorem of_snoc (h : Reached (es ++ [e]) s) : ∃ s₀, Reached es s₀ ∧ e.Turns s₀ s := by
  generalize whole : es ++ [e] = all at h
  cases h with
  | start => simp at whole
  | step before turns =>
    obtain ⟨rfl, same⟩ := List.append_inj' whole rfl
    cases same
    exact ⟨_, before, turns⟩

/-- Some store was reached before the last events. -/
theorem of_append {after : List FileEvent} (h : Reached (es ++ after) s) : ∃ s₀, Reached es s₀ := by
  induction after using List.reverseRecOn generalizing s with
  | nil => exact ⟨s, by simpa using h⟩
  | append_singleton after e ih =>
    rw [← List.append_assoc] at h
    obtain ⟨s₁, earlier, -⟩ := h.of_snoc
    exact ih earlier

/-- Each buffer is what the events have made of it. -/
theorem recorded (h : Reached es s) (name : String) : Recorded name es (s.get? name) := by
  induction h with
  | start => exact nofun
  | @step es e s s' before turns ih =>
    obtain ⟨b, alters, sets⟩ := turns.alters
    rw [sets.get? name]
    split
    case isTrue same =>
      subst same
      exact ih.step alters
    case isFalse other => exact ih.other (Ne.symm other)

variable {mode : FileMode} {content : Option String} {during : List FileEvent}

/-- While a file is open, events that concern it read or write it, until it is closed. -/
theorem eq_of_open (h : Reached (es ++ [e]) s) (same : e.name = name) (open_ : modeAfter name es = some mode)
    (stays : e ≠ .closed name) :
    (mode = .read ∧ ∃ line, e = .read name line) ∨ mode ≠ .read ∧ ∃ text, e = .wrote name text := by
  subst same
  obtain ⟨s₀, before, turns⟩ := h.of_snoc
  obtain ⟨b, alters, -⟩ := turns.alters
  have known := (before.recorded e.name).mode_eq.trans open_
  generalize s₀.get? e.name = old at alters known
  cases alters with
  | rewrite closed | extend closed | load closed | reread closed => cases closed.symm.trans known
  | close => exact absurd rfl stays
  | write given writing => exact .inr ⟨Option.some.inj (given.symm.trans known) ▸ writing, _, rfl⟩
  | read given => exact .inl ⟨Option.some.inj (known.symm.trans given), _, rfl⟩

/-- What happens to a file from where it is opened to be read until it is closed. -/
theorem reading (h : Reached (before ++ .opened name .read content :: during) s) (stays : .closed name ∉ during) :
    modeAfter name (before ++ .opened name .read content :: during) = some .read ∧
      held name (before ++ .opened name .read content :: during) = content.elim (held name before) Text.lines ∧
      taken name (before ++ .opened name .read content :: during) = during.filterMap (lineRead? name) := by
  induction during using List.reverseRecOn generalizing s with
  | nil => cases content <;> simp [admits, leaves, takes]
  | append_singleton during e ih =>
    rw [← List.cons_append, ← List.append_assoc] at h ⊢
    obtain ⟨s₀, earlier, -⟩ := h.of_snoc
    simp only [List.mem_append, List.mem_singleton, not_or] at stays
    obtain ⟨mode, lines, read⟩ := ih earlier stays.1
    rw [modeAfter_snoc, held_snoc, taken_snoc, mode, lines, read, List.filterMap_append]
    by_cases same : e.name = name
    · obtain ⟨-, line, rfl⟩ | ⟨writing, -⟩ := h.eq_of_open same mode (Ne.symm stays.2)
      · simp [admits, leaves, takes, lineRead?]
      · exact absurd rfl writing
    · rw [admits_other same, leaves_other same, takes_other same]
      simp [lineRead?_other same]

/-- What happens to a file from where it is opened to be written or extended until it is closed. -/
theorem writing (h : Reached (before ++ .opened name mode content :: during) s) (writes : mode ≠ .read)
    (stays : .closed name ∉ during) :
    modeAfter name (before ++ .opened name mode content :: during) = some mode ∧
      held name (before ++ .opened name mode content :: during) =
        (if mode = .write then [] else held name before) ++ during.filterMap (lineWritten? name) := by
  induction during using List.reverseRecOn generalizing s with
  | nil =>
    cases mode with
    | read => exact absurd rfl writes
    | write | append => simp [admits, leaves]
  | append_singleton during e ih =>
    rw [← List.cons_append, ← List.append_assoc] at h ⊢
    obtain ⟨s₀, earlier, -⟩ := h.of_snoc
    simp only [List.mem_append, List.mem_singleton, not_or] at stays
    obtain ⟨known, lines⟩ := ih earlier stays.1
    rw [modeAfter_snoc, held_snoc, known, lines, List.filterMap_append]
    by_cases same : e.name = name
    · obtain ⟨reading, -⟩ | ⟨-, text, rfl⟩ := h.eq_of_open same known (Ne.symm stays.2)
      · exact absurd reading writes
      · simp [admits, leaves, lineWritten?]
    · rw [admits_other same, leaves_other same]
      simp [lineWritten?_other same]

/-- What a file holds that was written or extended and closed, and whose lines have not changed since. -/
theorem held_written {gap : List FileEvent} (h : Reached (before ++ .opened name mode content :: during) s)
    (writes : mode ≠ .read) (stays : .closed name ∉ during)
    (kept : ∀ e ∈ gap, ¬ e.Replaces name ∧ e.lineWritten? name = none) :
    held name (before ++ .opened name mode content :: (during ++ .closed name :: gap)) =
      (if mode = .write then [] else held name before) ++ during.filterMap (lineWritten? name) := by
  have split : before ++ .opened name mode content :: (during ++ .closed name :: gap) =
      (before ++ .opened name mode content :: during) ++ .closed name :: gap := by simp
  have none : (FileEvent.closed name :: gap).filterMap (lineWritten? name) = [] :=
    List.filterMap_eq_nil_iff.2 (List.forall_mem_cons.2 ⟨rfl, fun e mem => (kept e mem).2⟩)
  rw [split, held_append _ (List.forall_mem_cons.2 ⟨id, fun e mem => (kept e mem).1⟩), none, List.append_nil]
  exact (h.writing writes stays).2

/-- A file that is open to be read has a buffer. -/
theorem buffer_of_reading (h : Reached es s) (open_ : modeAfter name es = some .read) :
    ∃ b, s.get? name = some b ∧ b.mode = some .read ∧ b.Records name es := by
  have recorded := h.recorded name
  cases found : s.get? name with
  | none =>
    rw [found] at recorded
    cases recorded.mode_eq.trans open_
  | some b =>
    rw [found] at recorded
    exact ⟨b, rfl, recorded.mode.trans open_, recorded⟩

/-- The lines that were read are those at the beginning. -/
theorem taken_at_beginning (h : Reached es s) (open_ : modeAfter name es = some .read) :
    taken name es <+: held name es := by
  obtain ⟨b, -, given, recorded⟩ := h.buffer_of_reading open_
  rw [(recorded.reading given).2]
  exact List.take_prefix ..

/-- What the next read gives of a file that is open to be read. -/
theorem readLine_eq (h : Reached es s) (open_ : modeAfter name es = some .read) :
    (s.readLine name).map Prod.fst =
      match (held name es)[(taken name es).length]? with
      | some line => .ok line
      | none => .error (.pastEnd name) := by
  obtain ⟨b, found, given, recorded⟩ := h.buffer_of_reading open_
  obtain ⟨below, read⟩ := recorded.reading given
  have opened : s.opened name = .ok (b, .read) := by
    unfold FileStore.opened
    simp only [found, given]
  have count : (taken name es).length = b.cursor := by
    rw [read, List.length_take, ← recorded.lines, Array.length_toList, Nat.min_eq_left below]
  rw [count, ← recorded.lines, Array.getElem?_toList]
  unfold FileStore.readLine
  rw [opened]
  change Except.map Prod.fst (match b.lines[b.cursor]? with
    | some line => _
    | none => _) = _
  cases b.lines[b.cursor]? <;> rfl

theorem nodup_names (h : Reached es s) : s.names.Nodup := by
  induction h with
  | start => exact List.nodup_nil
  | step _ turns ih =>
    obtain ⟨b, -, sets⟩ := turns.alters
    exact sets.names ih

/-- A file that was opened to be written or extended is reported with what it holds. -/
theorem mem_modified (h : Reached es s) (claimed : ∃ e ∈ es, e.Claims name) :
    ∃ b, (name, b) ∈ s.modified ∧ b.lines.toList = held name es := by
  have recorded := h.recorded name
  cases found : s.get? name with
  | none =>
    rw [found] at recorded
    obtain ⟨e, mem, claims⟩ := claimed
    exact absurd claims (not_claims_other (recorded e mem))
  | some b =>
    rw [found] at recorded
    obtain ⟨first, rest, files, -⟩ := List.lookup_eq_some_iff.1 found
    refine ⟨b, ?_, recorded.lines⟩
    rw [FileStore.modified, List.mem_mergeSort, List.mem_filter, files]
    exact ⟨by simp, recorded.modified.2 claimed⟩

/-- A file that is reported was opened to be written or extended. -/
theorem of_mem_modified {b : FileBuffer} (h : Reached es s) (mem : (name, b) ∈ s.modified) :
    b.lines.toList = held name es ∧ ∃ e ∈ es, e.Claims name := by
  rw [FileStore.modified, List.mem_mergeSort, List.mem_filter] at mem
  have recorded := h.recorded name
  rw [show s.get? name = some b from lookup_of_mem h.nodup_names mem.1] at recorded
  exact ⟨recorded.lines, recorded.modified.1 mem.2⟩

end Reached

end Pseudocode
