import Pseudocode.Proofs.Files.History

/-!
Stores of files as the automata that they are. Any calls may be made, in any order; those that succeed are the
events of the store's history, and the others change nothing (`next_cases`). A call looks at the buffer of its file
alone, so each file has an automaton of its own: what the calls on other files have done can be left out
(`get?_after_filter`). From there on everything is read off the history (`file_calls_obeyed`).
-/

namespace Pseudocode

/-- A call on a store of files. -/
inductive FileCall where
  | opens (name : String) (mode : FileMode) (content : Option String)
  | closes (name : String)
  | reads (name : String)
  | writes (name text : String)
  | asks (name : String)
deriving DecidableEq

/-- What a call answers, if it succeeds: nothing, a line, or whether all lines have been read. -/
inductive FileAnswer where
  | done
  | line (text : String)
  | ended (all : Bool)

namespace FileCall

def name : FileCall → String
  | .opens name .. | .closes name | .reads name | .writes name _ | .asks name => name

/-- The event that a call is that succeeds, unless it changes nothing. -/
def event? : FileCall → FileAnswer → Option FileEvent
  | .opens name mode content, _ => some (.opened name mode content)
  | .closes name, _ => some (.closed name)
  | .reads name, .line text => some (.read name text)
  | .writes name text, _ => some (.wrote name text)
  | _, _ => none

end FileCall

/-- An event makes one thing of a buffer. -/
theorem FileEvent.Alters.unique {e : FileEvent} {old : Option FileBuffer} {b b' : FileBuffer} (h : e.Alters old b)
    (h' : e.Alters old b') : b = b' := by
  cases h <;> cases h' <;> rfl

open FileEvent

namespace FileStore

/-- Makes a call. -/
def perform (s : FileStore) : FileCall → Except FileError (FileAnswer × FileStore)
  | .opens name mode content => (s.openFile name mode content).map (.done, ·)
  | .closes name => (s.close name).map (.done, ·)
  | .reads name => (s.readLine name).map fun (text, s') => (.line text, s')
  | .writes name text => (s.writeLine name text).map (.done, ·)
  | .asks name => (s.atEnd name).map (.ended ·, s)

/-- The store after a call, also after one that fails. -/
def next (s : FileStore) (c : FileCall) : FileStore := ((s.perform c).map Prod.snd).toOption.getD s

/-- The event that a call is. -/
def event? (s : FileStore) (c : FileCall) : Option FileEvent :=
  (s.perform c).toOption.bind fun (answer, _) => c.event? answer

/-- The store after some calls, where there were no files before. -/
def after (calls : List FileCall) : FileStore := calls.foldl next .empty

/-- The events of some calls, in order. -/
def history (s : FileStore) : List FileCall → List FileEvent
  | [] => []
  | c :: rest => (s.event? c).toList ++ (s.next c).history rest

/-- The lines that a file holds. -/
def linesOf (s : FileStore) (name : String) : List String := ((s.get? name).getD .empty).lines.toList

variable {s t : FileStore} {c : FileCall} {calls : List FileCall} {name : String} {b : FileBuffer}

@[simp]
theorem after_snoc : after (calls ++ [c]) = (after calls).next c := List.foldl_concat ..

theorem history_append (s : FileStore) (calls : List FileCall) (c : FileCall) :
    s.history (calls ++ [c]) = s.history calls ++ ((calls.foldl next s).event? c).toList := by
  induction calls generalizing s with
  | nil => simp [history]
  | cons d calls ih => simp [history, ih, List.append_assoc]

theorem next_of_ok {answer : FileAnswer} {s' : FileStore} (ended : s.perform c = .ok (answer, s')) : s.next c = s' := by
  rw [next, ended]
  rfl

theorem next_of_error {e : FileError} (failed : s.perform c = .error e) : s.next c = s := by
  rw [next, failed]
  rfl

theorem map_eq_ok {ε α β : Type} {x : Except ε α} {f : α → β} {b : β} (ended : x.map f = .ok b) :
    ∃ a, x = .ok a ∧ f a = b := by
  cases x with
  | error e => cases ended
  | ok a => exact ⟨a, rfl, Except.ok.inj ended⟩

/-- A call is an event, or it changes nothing. -/
theorem next_cases (s : FileStore) (c : FileCall) :
    (s.event? c = none ∧ s.next c = s) ∨
      ∃ e, s.event? c = some e ∧ e.name = c.name ∧ e.Turns s (s.next c) := by
  cases ended : s.perform c with
  | error e =>
    refine .inl ⟨?_, next_of_error ended⟩
    rw [event?, ended]
    rfl
  | ok answer =>
    obtain ⟨answer, s'⟩ := answer
    rw [next_of_ok ended, event?, ended]
    cases c with
    | opens name mode content =>
      obtain ⟨_, turned, ⟨⟩⟩ := map_eq_ok ended
      exact .inr ⟨_, rfl, rfl, turned⟩
    | closes name =>
      obtain ⟨_, turned, ⟨⟩⟩ := map_eq_ok ended
      exact .inr ⟨_, rfl, rfl, turned⟩
    | reads name =>
      obtain ⟨_, turned, ⟨⟩⟩ := map_eq_ok ended
      exact .inr ⟨_, rfl, rfl, turned⟩
    | writes name text =>
      obtain ⟨_, turned, ⟨⟩⟩ := map_eq_ok ended
      exact .inr ⟨_, rfl, rfl, turned⟩
    | asks name =>
      obtain ⟨_, -, ⟨⟩⟩ := map_eq_ok ended
      exact .inl ⟨rfl, rfl⟩

theorem reached_after (calls : List FileCall) : Reached (empty.history calls) (after calls) := by
  induction calls using List.reverseRecOn with
  | nil => exact .start
  | append_singleton calls c ih =>
    rw [history_append, after_snoc]
    obtain ⟨none, same⟩ | ⟨e, event, -, turns⟩ := next_cases (after calls) c
    · rw [same, show (calls.foldl next empty).event? c = Option.none from none, Option.toList_none, List.append_nil]
      exact ih
    · rw [show (calls.foldl next empty).event? c = some e from event]
      exact .step ih turns

theorem readLine_of_opened {mode : FileMode} (opened : s.opened name = .ok (b, mode)) :
    s.readLine name =
      if mode = .read then
        b.lines[b.cursor]?.elim (.error (.pastEnd name)) fun line =>
          .ok (line, s.put name { b with cursor := b.cursor + 1 })
      else .error (.wrongMode name .read mode) := by
  unfold readLine
  rw [opened]
  cases mode with
  | read =>
    dsimp only [Except.bind, bind]
    cases b.lines[b.cursor]? <;> rfl
  | write | append => rfl

theorem readLine_of_error {e : FileError} (opened : s.opened name = .error e) : s.readLine name = .error e := by
  unfold readLine
  rw [opened]
  rfl

theorem atEnd_of_opened {mode : FileMode} (opened : s.opened name = .ok (b, mode)) :
    s.atEnd name =
      if mode = .read then .ok (decide (b.lines.size ≤ b.cursor)) else .error (.wrongMode name .read mode) := by
  unfold atEnd
  rw [opened]
  rfl

theorem atEnd_of_error {e : FileError} (opened : s.opened name = .error e) : s.atEnd name = .error e := by
  unfold atEnd
  rw [opened]
  rfl

section Local

/-- A call on another file leaves a file alone. -/
theorem get?_next_of_ne (other : c.name ≠ name) (s : FileStore) : (s.next c).get? name = s.get? name := by
  obtain ⟨-, same⟩ | ⟨e, -, named, turns⟩ := next_cases s c
  · rw [same]
  · obtain ⟨b, -, sets⟩ := turns.alters
    rw [sets.get?, if_neg (named ▸ other.symm)]

theorem opened_congr (same : s.get? name = t.get? name) : s.opened name = t.opened name := by
  unfold opened
  rw [same]

/-- What a call answers depends on its file alone. -/
theorem perform_congr (same : s.get? c.name = t.get? c.name) :
    (s.perform c).map Prod.fst = (t.perform c).map Prod.fst := by
  cases c with
  | opens name mode content =>
    replace same : s.get? name = t.get? name := same
    have opens : s.isOpen name = t.isOpen name := by rw [isOpen, isOpen, same]
    simp only [perform, openFile, opens, same]
    cases t.isOpen name with
    | true => rfl
    | false =>
      cases mode with
      | read => cases content <;> cases t.get? name <;> rfl
      | write | append => rfl
  | closes name =>
    replace same : s.get? name = t.get? name := same
    simp only [perform, close, same]
    cases t.get? name with
    | none => rfl
    | some b => cases open_ : b.mode <;> simp [open_, Except.map]
  | reads name =>
    have opened : s.opened name = t.opened name := opened_congr same
    cases found : t.opened name with
    | error e => rw [perform, perform, readLine_of_error (opened.trans found), readLine_of_error found]
    | ok answer =>
      rw [perform, perform, readLine_of_opened (opened.trans found), readLine_of_opened found]
      split
      · cases answer.1.lines[answer.1.cursor]? <;> rfl
      · rfl
  | writes name text =>
    have opened : s.opened name = t.opened name := opened_congr same
    simp only [perform, writeLine, checkWritable, opened]
    cases t.opened name with
    | error e => rfl
    | ok answer => obtain ⟨b, _ | _ | _⟩ := answer <;> rfl
  | asks name =>
    have opened : s.opened name = t.opened name := opened_congr same
    cases found : t.opened name with
    | error e => rw [perform, perform, atEnd_of_error (opened.trans found), atEnd_of_error found]; rfl
    | ok answer =>
      rw [perform, perform, atEnd_of_opened (opened.trans found), atEnd_of_opened found]
      split <;> rfl

theorem event?_eq (s : FileStore) (c : FileCall) :
    s.event? c = ((s.perform c).map Prod.fst).toOption.bind c.event? := by
  unfold event?
  cases s.perform c <;> rfl

/-- What becomes of the file that a call concerns depends on this file alone. -/
theorem get?_next_congr (same : s.get? c.name = t.get? c.name) :
    (s.next c).get? c.name = (t.next c).get? c.name := by
  have events : s.event? c = t.event? c := by rw [event?_eq, event?_eq, perform_congr same]
  obtain ⟨none, still⟩ | ⟨e, event, named, turns⟩ := next_cases s c
  · obtain ⟨-, still'⟩ | ⟨e, event', -⟩ := next_cases t c
    · rw [still, still', same]
    · cases (none.symm.trans events).trans event'
  · obtain ⟨none, -⟩ | ⟨e', event', -, turns'⟩ := next_cases t c
    · cases (event.symm.trans events).trans none
    · obtain rfl : e = e' := Option.some.inj ((event.symm.trans events).trans event')
      obtain ⟨b, alters, sets⟩ := turns.alters
      obtain ⟨b', alters', sets'⟩ := turns'.alters
      rw [named] at alters alters' sets sets'
      rw [same] at alters
      rw [sets.get?, sets'.get?, if_pos rfl, if_pos rfl, alters.unique alters']

/-- The calls on other files can be left out. -/
theorem get?_after_filter (calls : List FileCall) (name : String) :
    (after (calls.filter (·.name = name))).get? name = (after calls).get? name := by
  induction calls using List.reverseRecOn with
  | nil => rfl
  | append_singleton calls c ih =>
    rw [List.filter_append, after_snoc]
    by_cases own : c.name = name
    · subst own
      simp only [List.filter_cons, decide_true, if_true, List.filter_nil, after_snoc]
      exact get?_next_congr ih
    · simp only [List.filter_cons, own, decide_false, Bool.false_eq_true, if_false, List.filter_nil, List.append_nil]
      rw [ih, get?_next_of_ne own]

end Local

theorem cursor_le {es : List FileEvent} (reached : Reached es s) (found : s.get? name = some b) :
    b.cursor ≤ b.lines.size := by
  induction reached generalizing b with
  | start => cases found
  | @step es e s s' _ turns ih =>
    obtain ⟨b', alters, sets⟩ := turns.alters
    rw [sets.get?] at found
    split at found
    case isFalse => exact ih found
    case isTrue same =>
      subst same
      cases found
      generalize old : s.get? e.name = before at alters
      cases alters with
      | rewrite | extend | load | reread => exact Nat.zero_le _
      | close =>
        have below := ih old
        exact below
      | write =>
        have below := ih old
        exact Nat.le_trans below (by simp)
      | read _ here => exact (Array.getElem?_eq_some_iff.1 here).1

/-- The lines of a file change as the event says that a call is, if it is one. -/
theorem linesOf_next (s : FileStore) (c : FileCall) (name : String) :
    (s.next c).linesOf name = (s.event? c).elim (s.linesOf name) (leaves name (s.linesOf name)) := by
  obtain ⟨none, same⟩ | ⟨e, event, -, turns⟩ := next_cases s c
  · rw [none, same]
    rfl
  · rw [event, Option.elim_some]
    obtain ⟨b, alters, sets⟩ := turns.alters
    unfold linesOf
    rw [sets.get?]
    split
    case isFalse other => rw [leaves_other (Ne.symm other)]
    case isTrue same =>
      subst same
      generalize s.get? e.name = old at alters
      cases alters <;> simp [leaves, FileEvent.name]

end FileStore

namespace FileEvent

/-- A file was opened in some mode, and has neither been opened nor closed since. -/
def OpenSince (es : List FileEvent) (name : String) (mode : FileMode) : Prop :=
  ∃ before content later, es = before ++ .opened name mode content :: later ∧
    .closed name ∉ later ∧ ∀ mode content, .opened name mode content ∉ later

theorem openSince_snoc {es : List FileEvent} {e : FileEvent} {name : String} {mode : FileMode} :
    OpenSince (es ++ [e]) name mode ↔ (∃ content, e = .opened name mode content) ∨
      OpenSince es name mode ∧ e ≠ .closed name ∧ ∀ mode content, e ≠ .opened name mode content := by
  constructor
  · rintro ⟨before, content, later, whole, stays, last⟩
    rcases List.eq_nil_or_concat later with rfl | ⟨earlier, d, rfl⟩
    · exact .inl ⟨content, by simpa using (List.append_inj' whole rfl).2⟩
    · rw [List.concat_eq_append, ← List.cons_append, ← List.append_assoc] at whole
      obtain ⟨rfl, same⟩ := List.append_inj' whole rfl
      cases same
      simp only [List.concat_eq_append, List.mem_append, List.mem_singleton, not_or] at stays last
      exact .inr ⟨⟨before, content, earlier, rfl, stays.1, fun m c => (last m c).1⟩, Ne.symm stays.2,
        fun m c => Ne.symm (last m c).2⟩
  · rintro (⟨content, rfl⟩ | ⟨⟨before, content, later, rfl, stays, last⟩, notClosed, notOpened⟩)
    · exact ⟨es, content, [], rfl, by simp, by simp⟩
    · refine ⟨before, content, later ++ [e], by simp, ?_, fun m c => ?_⟩
      · simp [stays, Ne.symm notClosed]
      · simp [last m c, Ne.symm (notOpened m c)]

theorem modeAfter_eq_some_iff {name : String} {es : List FileEvent} {mode : FileMode} :
    modeAfter name es = some mode ↔ OpenSince es name mode := by
  induction es using List.reverseRecOn with
  | nil => simp [modeAfter, OpenSince]
  | append_singleton es e ih =>
    rw [modeAfter_snoc, openSince_snoc, ← ih]
    cases e with
    | opened other mode' content =>
      by_cases same : other = name <;> simp [admits, same]
    | closed other =>
      by_cases same : other = name <;> simp [admits, same]
    | wrote other text | read other line => simp [admits]

end FileEvent

namespace FileStore

variable {s : FileStore} {name : String} {b : FileBuffer}

theorem isOpen_iff {es : List FileEvent} (reached : Reached es s) :
    s.isOpen name = true ↔ ∃ mode, OpenSince es name mode := by
  have mode := (reached.recorded name).mode_eq
  simp only [← modeAfter_eq_some_iff, ← mode, isOpen]
  cases s.get? name with
  | none => simp
  | some b => simp [Option.isSome_iff_exists]

/-- All lines have been read if the next read would go past the end. -/
theorem atEnd_iff (s : FileStore) (name : String) :
    (s.atEnd name = .ok true ↔ s.readLine name = .error (.pastEnd name)) ∧
      (s.atEnd name = .ok false ↔ ∃ line s', s.readLine name = .ok (line, s')) := by
  cases opened : s.opened name with
  | error e =>
    rw [atEnd_of_error opened, readLine_of_error opened]
    have other : e ≠ .pastEnd name := by
      rintro rfl
      unfold FileStore.opened at opened
      split at opened
      · cases opened
      · split at opened <;> cases opened
    simp [other]
  | ok answer =>
    obtain ⟨b, mode⟩ := answer
    rw [atEnd_of_opened opened, readLine_of_opened opened]
    by_cases reading : mode = .read
    · simp only [reading, if_true, Except.ok.injEq, decide_eq_true_eq, decide_eq_false_iff_not]
      rw [← Array.getElem?_eq_none_iff]
      cases b.lines[b.cursor]? <;> simp
    · simp [reading]

/-- A file that was opened to be read, `k` calls to read it ago. -/
structure Reading (s : FileStore) (name : String) (ls : List String) (k : Nat) (b : FileBuffer) : Prop where
  found : s.get? name = some b
  mode : b.mode = some .read
  lines : b.lines.toList = ls
  cursor : b.cursor = min k ls.length

namespace Reading

variable {ls : List String} {k : Nat} (h : s.Reading name ls k b)

include h

theorem opened : s.opened name = .ok (b, .read) := by
  unfold FileStore.opened
  simp only [h.found, h.mode]

theorem readLine_eq : (s.readLine name).map Prod.fst = ls[k]?.elim (.error (.pastEnd name)) .ok := by
  rw [readLine_of_opened h.opened, if_pos rfl, h.cursor, ← Array.getElem?_toList, h.lines]
  by_cases inside : k < ls.length
  · rw [Nat.min_eq_left (Nat.le_of_lt inside)]
    cases ls[k]? <;> rfl
  · rw [Nat.min_eq_right (Nat.le_of_not_lt inside), List.getElem?_eq_none (Nat.le_refl _),
      List.getElem?_eq_none (Nat.le_of_not_lt inside)]
    rfl

theorem next_reads : ∃ b', (s.next (.reads name)).Reading name ls (k + 1) b' := by
  have read := readLine_of_opened h.opened
  have size : b.lines.size = ls.length := by rw [← h.lines, Array.length_toList]
  have cursor := h.cursor
  rw [if_pos rfl] at read
  cases here : b.lines[b.cursor]? with
  | none =>
    rw [here] at read
    rw [Array.getElem?_eq_none_iff] at here
    have same : s.next (.reads name) = s := next_of_error (by rw [perform, read]; rfl)
    rw [same]
    exact ⟨b, h.found, h.mode, h.lines, by omega⟩
  | some line =>
    rw [here] at read
    have inside := (Array.getElem?_eq_some_iff.1 here).1
    have moved : s.next (.reads name) = s.put name { b with cursor := b.cursor + 1 } :=
      next_of_ok (by rw [perform, read]; rfl)
    rw [moved]
    refine ⟨_, ((sets_put s name _).get? name).trans (if_pos rfl), h.mode, h.lines, ?_⟩
    dsimp only
    omega

/-- Only a call that reads or closes a file that is open to be read moves it. -/
theorem next_of_ne {c : FileCall} (stays : c ≠ .closes name) (other : c ≠ .reads name) :
    (s.next c).Reading name ls k b := by
  suffices same : (s.next c).get? name = s.get? name from ⟨same.trans h.found, h.mode, h.lines, h.cursor⟩
  by_cases own : c.name = name
  · subst own
    cases c with
    | opens name mode content =>
      have open_ : s.isOpen name = true := by simp [isOpen, show s.get? name = some b from h.found, h.mode]
      have failed : s.perform (.opens name mode content) = .error (.alreadyOpen name) := by
        simp [perform, openFile, open_, Except.map]
      rw [next_of_error failed]
    | closes name => exact absurd rfl stays
    | reads name => exact absurd rfl other
    | writes name text =>
      have opened : s.opened name = .ok (b, .read) := h.opened
      have failed : s.perform (.writes name text) = .error (.wrongMode name .write .read) := by
        rw [perform, writeLine, checkWritable, opened]
        rfl
      rw [next_of_error failed]
    | asks name =>
      have opened : s.opened name = .ok (b, .read) := h.opened
      have answered : s.perform (.asks name) = .ok (.ended (b.lines.size ≤ b.cursor), s) := by
        rw [perform, atEnd_of_opened opened]
        rfl
      rw [next_of_ok answered]
  · exact get?_next_of_ne own s

end Reading

/-- Every call to read since a file was opened counts, also those that found no line. -/
theorem reading_since {before during : List FileCall} {content : Option String} {answer : FileAnswer × FileStore}
    (opened : (after before).perform (.opens name .read content) = .ok answer) (stays : .closes name ∉ during) :
    ∃ b, (after (before ++ .opens name .read content :: during)).Reading name
      ((after (before ++ [.opens name .read content])).linesOf name) (during.count (.reads name)) b := by
  induction during using List.reverseRecOn with
  | nil =>
    obtain ⟨s', turned, rfl⟩ := map_eq_ok opened
    obtain ⟨b, alters, sets⟩ := openFile_alters turned
    have found : (after (before ++ [.opens name .read content])).get? name = some b := by
      rw [after_snoc, next_of_ok opened, sets.get?, if_pos rfl]
    have fresh : b.mode = some .read ∧ b.cursor = 0 := by
      generalize (after before).get? name = old at alters
      cases alters <;> exact ⟨rfl, rfl⟩
    refine ⟨b, found, fresh.1, ?_, by simp [fresh.2]⟩
    rw [linesOf, found]
    rfl
  | append_singleton during c ih =>
    rw [List.mem_append, List.mem_singleton, not_or] at stays
    obtain ⟨b, reading⟩ := ih stays.1
    rw [← List.cons_append, ← List.append_assoc, after_snoc, List.count_append]
    by_cases read : c = .reads name
    · subst read
      simpa using reading.next_reads
    · have none : [c].count (.reads name) = 0 := by simp [read]
      rw [none, Nat.add_zero]
      exact ⟨b, reading.next_of_ne (Ne.symm stays.2) read⟩

/-- The names of modified files are in order, and no two are the same. -/
theorem modified_sorted {es : List FileEvent} (reached : Reached es s) :
    (s.modified.map Prod.fst).Pairwise (· < ·) := by
  have distinct : (s.modified.map Prod.fst).Nodup := by
    have perm := (List.mergeSort_perm (s.files.filter (·.2.modified)) fun a b => a.1 ≤ b.1).map Prod.fst
    refine perm.nodup_iff.2 (List.Nodup.sublist ?_ reached.nodup_names)
    exact List.filter_sublist.map Prod.fst
  have sorted : s.modified.Pairwise fun a b => decide (a.1 ≤ b.1) = true :=
    List.pairwise_mergeSort (fun a b c => by simpa using String.le_trans)
      (fun a b => by simpa using String.le_total a.1 b.1) _
  rw [List.Nodup, List.pairwise_map] at distinct
  rw [List.pairwise_map]
  refine (sorted.and distinct).imp fun {a b} ⟨le, ne⟩ => ?_
  exact Decidable.by_contra fun notLess => ne (String.le_antisymm (of_decide_eq_true le) (String.not_lt.1 notLess))

/-- What holds after any calls on a store that was empty before. -/
structure Obeys (calls : List FileCall) : Prop where
  /-- A file is open if the last call that opened it has no later one that closed it. -/
  opened (name : String) : (after calls).isOpen name = true ↔ ∃ mode, OpenSince (empty.history calls) name mode
  /-- Calls on other files make no difference: not to the file, and not to what calls on it answer. -/
  apart (name : String) : (after (calls.filter (·.name = name))).get? name = (after calls).get? name
  answers (c : FileCall) :
    ((after (calls.filter (·.name = c.name))).perform c).map Prod.fst = ((after calls).perform c).map Prod.fst
  /-- A call that fails changes nothing. -/
  refused {c : FileCall} {e : FileError} : (after calls).perform c = .error e → after (calls ++ [c]) = after calls
  cursor {name : String} {b : FileBuffer} : (after calls).get? name = some b → b.cursor ≤ b.lines.size
  /-- Lines change by what is written, by opening to write, and by opening to read with new content. -/
  lines (c : FileCall) (name : String) : (after (calls ++ [c])).linesOf name =
    ((after calls).event? c).elim ((after calls).linesOf name) (leaves name ((after calls).linesOf name))
  /-- The reads since a file was opened give its lines in order, and then fail. -/
  read {before during : List FileCall} {name : String} {content : Option String} {answer : FileAnswer × FileStore} :
    calls = before ++ .opens name .read content :: during →
    (after before).perform (.opens name .read content) = .ok answer → .closes name ∉ during →
    ((after calls).readLine name).map Prod.fst =
      ((answer.2.linesOf name)[during.count (.reads name)]?).elim (.error (.pastEnd name)) .ok
  /-- All lines have been read if the next read would go past the end. -/
  ended (name : String) :
    ((after calls).atEnd name = .ok true ↔ (after calls).readLine name = .error (.pastEnd name)) ∧
      ((after calls).atEnd name = .ok false ↔ ∃ line s', (after calls).readLine name = .ok (line, s'))
  /-- The files that are reported are those that were ever opened to be written or extended, in the order of
  their names. -/
  modified (name : String) : name ∈ (after calls).modified.map Prod.fst ↔ ∃ e ∈ empty.history calls, e.Claims name
  reported {name : String} {b : FileBuffer} :
    (name, b) ∈ (after calls).modified → (after calls).get? name = some b
  sorted : ((after calls).modified.map Prod.fst).Pairwise (· < ·)

end FileStore

/-- Whatever calls are made on a store of files, each file follows its automaton. -/
theorem file_calls_obeyed (calls : List FileCall) : FileStore.Obeys calls where
  opened _ := FileStore.isOpen_iff (FileStore.reached_after calls)
  apart := FileStore.get?_after_filter calls
  answers c := FileStore.perform_congr (FileStore.get?_after_filter calls c.name)
  refused failed := by rw [FileStore.after_snoc, FileStore.next_of_error failed]
  cursor := FileStore.cursor_le (FileStore.reached_after calls)
  lines c name := by rw [FileStore.after_snoc, FileStore.linesOf_next]
  read {before during name content answer} whole opened stays := by
    obtain ⟨b, reading⟩ := FileStore.reading_since opened stays
    rw [FileStore.after_snoc, FileStore.next_of_ok opened, ← whole] at reading
    exact reading.readLine_eq
  ended := FileStore.atEnd_iff (FileStore.after calls)
  modified name := by
    have reached := FileStore.reached_after calls
    simp only [List.mem_map, Prod.exists, exists_and_right, exists_eq_right]
    refine ⟨fun ⟨b, mem⟩ => (reached.of_mem_modified mem).2, fun claimed => ?_⟩
    obtain ⟨b, mem, -⟩ := reached.mem_modified claimed
    exact ⟨b, mem⟩
  reported mem := by
    rw [FileStore.modified, List.mem_mergeSort, List.mem_filter] at mem
    exact lookup_of_mem (FileStore.reached_after calls).nodup_names mem.1
  sorted := FileStore.modified_sorted (FileStore.reached_after calls)

end Pseudocode
