import Mathlib.Control.Monad.Basic
import Pseudocode.Proofs.Files.Runs

/-!
Reading what was written. A file that a run has written and closed, and then opens to be read, gives the lines that
it held, in order, if the host has no content for its name; they stay in it, and are reported after the run, until
they are replaced (`written_lines_read_back`). Content that the host has takes their place.
-/

namespace Pseudocode

open Exec FileEvent

variable {σ : Type}

/-- A file was opened to be written or extended, closed, and opened to be read, and it has not been closed since. -/
structure Reopened (name : String) (es : List FileEvent) where
  mode : FileMode
  given : Option String
  content : Option String
  before : List FileEvent
  during : List FileEvent
  gap : List FileEvent
  reads : List FileEvent
  events : es = before ++ .opened name mode given :: (during ++ .closed name :: gap) ++
    .opened name .read content :: reads
  writes : mode ≠ .read
  stays : .closed name ∉ during
  kept : ∀ e ∈ gap, ¬ e.Replaces name ∧ e.lineWritten? name = none
  reading : .closed name ∉ reads

namespace Reopened

variable {name : String} {es : List FileEvent} (r : Reopened name es)

/-- The lines that were written before the file was closed. -/
def written : List String := r.during.filterMap (lineWritten? name)

/-- The lines that the file held when it was closed. -/
def lines : List String := (if r.mode = .write then [] else held name r.before) ++ r.written

/-- The lines that there are to read. -/
def shown : List String := r.content.elim r.lines Text.lines

/-- The lines that have been read. -/
def seen : List String := r.reads.filterMap (lineRead? name)

/-- What the next READFILE reads. -/
def next (line : Nat) : Except RuntimeError String :=
  match r.shown[r.seen.length]? with
  | some text => .ok text
  | none => .error ⟨.file (.pastEnd name), line⟩

variable {s : FileStore}

theorem state (reached : Reached es s) :
    modeAfter name es = some .read ∧ held name es = r.shown ∧ taken name es = r.seen := by
  rcases r with ⟨mode, given, content, before, during, gap, reads, rfl, writes, stays, kept, reading⟩
  obtain ⟨open_, lines, read⟩ := reached.reading reading
  refine ⟨open_, ?_, read⟩
  have split : before ++ .opened name mode given :: (during ++ .closed name :: gap) =
      before ++ .opened name mode given :: during ++ .closed name :: gap := by simp
  rw [split, List.append_assoc] at reached
  obtain ⟨s₀, written⟩ := reached.of_append
  rw [lines, written.held_written writes stays kept]
  rfl

/-- What a run reads next of the file. -/
theorem readNamed_eq {m : Machine σ} (reached : Reached es m.files) (line : Nat) :
    outcome (readNamed name line m) = r.next line := by
  obtain ⟨open_, lines, read⟩ := r.state reached
  have answer := reached.readLine_eq open_
  rw [lines, read] at answer
  have passed : outcome (readNamed name line m) =
      ((m.files.readLine name).map Prod.fst).mapError fun e => ⟨.file e, line⟩ := by
    unfold readNamed
    rw [get_bind]
    cases m.files.readLine name <;> rfl
  rw [passed, answer, next]
  cases r.shown[r.seen.length]? <;> rfl

theorem seen_at_beginning (reached : Reached es s) : r.seen <+: r.shown := by
  obtain ⟨open_, lines, read⟩ := r.state reached
  rw [← read, ← lines]
  exact reached.taken_at_beginning open_

include r

/-- The file has been opened to be written or extended. -/
theorem claimed : ∃ e ∈ es, e.Claims name :=
  ⟨.opened name r.mode r.given, by simp [r.events], rfl, r.writes⟩

theorem ne_nil : es ≠ [] := by simp [r.events]

/-- The host has been asked for the content of the file. -/
theorem asked {host : Host σ} (possible : ∀ e ∈ es, e.Possible host) :
    ∃ s, (host.requestFile name s).1 = r.content :=
  possible (.opened name .read r.content) (by simp [r.events])

end Reopened

/-- Every run has a history of events with files. Where a file was written, closed and opened again to be read, READFILE
gives the lines that it held when it was closed, in order, and the report after the run begins with them if they
are not replaced later. This is so if the host has no content for the name; otherwise it is the lines of that
content that are read and reported. -/
theorem written_lines_read_back (p : Program) (host : Host σ) (config : Config) (draws : Draws) (state : σ) :
    (∃ es, p.FileHistory host config draws state es) ∧
    ∀ (name : String) (past later : List FileEvent) (r : Reopened name past),
      p.FileHistory host config draws state (past ++ later) →
      (∃ m, Reachable p host config draws state m ∧ Reached past m.files) ∧
      (∀ m : Machine σ, Reached past m.files → ∀ line, outcome (readNamed name line m) = r.next line) ∧
      r.seen <+: r.shown ∧
      (∃ s, (host.requestFile name s).1 = r.content) ∧
      (r.content = none → r.shown = r.lines) ∧
      ((∀ e ∈ later, ¬ e.Replaces name) →
        ∃ b, (name, b) ∈ (final (p.exec host config (.initial config draws state))).files.modified ∧
          r.shown <+: b.lines.toList) := by
  refine ⟨p.exists_fileHistory host config draws state, fun name past later r history => ?_⟩
  obtain ⟨m, reachable, reached⟩ := history.reachable r.ne_nil
  obtain ⟨-, lines, -⟩ := r.state reached
  refine ⟨⟨m, reachable, reached⟩, fun m reached => r.readNamed_eq reached, r.seen_at_beginning reached, ?_, ?_, ?_⟩
  · exact r.asked fun e mem => FileStore.Follows.possible history e (List.mem_append_left later mem)
  · intro none
    rw [Reopened.shown, none]
    rfl
  · intro kept
    obtain ⟨e, mem, claims⟩ := r.claimed
    obtain ⟨b, among, held⟩ :=
      history.reached_last.mem_modified ⟨e, List.mem_append_left later mem, claims⟩
    refine ⟨b, among, ?_⟩
    rw [held, held_append past kept, lines]
    exact List.prefix_append ..

/-- A file is written, and then a line of it is read and shown. -/
def rewritten : Program where
  statements :=
    [.openFile (.literal (.string "f") ⟨1, 10⟩) .write ⟨1, 1⟩,
      .writeFile (.literal (.string "f") ⟨2, 11⟩) (.literal (.string "new") ⟨2, 16⟩) ⟨2, 1⟩,
      .closeFile (.literal (.string "f") ⟨3, 11⟩) ⟨3, 1⟩,
      .openFile (.literal (.string "f") ⟨4, 10⟩) .read ⟨4, 1⟩,
      .declare "x" .string ⟨5, 1⟩,
      .readFile (.literal (.string "f") ⟨6, 10⟩) (.identifier "x" ⟨6, 15⟩) ⟨6, 1⟩,
      .output [.identifier "x" ⟨7, 8⟩] ⟨7, 1⟩]

/-- Where the host has no file, what was written is read. -/
theorem rewritten_read_back :
    ∃ past, ∃ r : Reopened "f" past,
      rewritten.FileHistory Script.host { arenaSize := 1030 } 0 {} (past ++ [.read "f" "new"]) ∧
      r.shown = ["new"] ∧
      (∃ m, Reachable rewritten Script.host { arenaSize := 1030 } 0 {} m ∧
        outcome (readNamed "f" 6 m) = .ok "new") ∧
      ∃ b, ("f", b) ∈ (final (rewritten.exec Script.host { arenaSize := 1030 }
          (.initial { arenaSize := 1030 } 0 {}))).files.modified ∧ ["new"] <+: b.lines.toList := by
  let store (lines : Array String) (mode : Option FileMode) (cursor : Nat) : FileStore :=
    ⟨[("f", ⟨lines, mode, cursor, true⟩)]⟩
  let r : Reopened "f" [.opened "f" .write none, .wrote "f" "new", .closed "f", .opened "f" .read none] :=
    ⟨.write, none, none, [], [.wrote "f" "new"], [], [], rfl, nofun, by simp, nofun, nofun⟩
  have stores : (rewritten.observe Script.host { arenaSize := 1030 } (500 + 100000 + 1)
      (.initial { arenaSize := 1030 } 0 {})).states.map (·.files) =
        [.empty, store #[] (some .write) 0, store #[] (some .write) 0, store #["new"] (some .write) 0,
          store #["new"] (some .write) 0, store #["new"] none 0, store #["new"] none 0,
          store #["new"] (some .read) 0, store #["new"] (some .read) 0, store #["new"] (some .read) 0,
          store #["new"] (some .read) 0, store #["new"] (some .read) 1, store #["new"] (some .read) 1,
          store #["new"] (some .read) 1, store #["new"] (some .read) 1] := by
    decide +kernel
  have last : (final (rewritten.exec Script.host { arenaSize := 1030 }
      (.initial { arenaSize := 1030 } 0 {}))).files = store #["new"] (some .read) 1 := by
    decide +kernel
  have history : rewritten.FileHistory Script.host { arenaSize := 1030 } 0 {}
      ([.opened "f" .write none, .wrote "f" "new", .closed "f", .opened "f" .read none] ++ [.read "f" "new"]) := by
    rw [Program.FileHistory, last, stores]
    exact .same (.event rfl rfl (.same (.event trivial rfl (.same (.event trivial rfl (.same
      (.event ⟨{}, rfl⟩ rfl (.same (.same (.same (.event trivial rfl (.same (.same (.same (.last _)))))))))))))))
  obtain ⟨⟨m, reachable, reached⟩, reads, -, -, -, reported⟩ :=
    (written_lines_read_back rewritten Script.host { arenaSize := 1030 } 0 {}).2 "f" _ _ r history
  exact ⟨_, r, history, rfl, ⟨m, reachable, reads m reached 6⟩, reported (by simp [Replaces])⟩

/-- Where it has one, that is read and reported, and what was written is lost. -/
theorem rewritten_lost :
    outcome (rewritten.exec Script.host { arenaSize := 1030 }
      (.initial { arenaSize := 1030 } 0 { files := [("f", "old\n")] })) = .ok .completed ∧
    (final (rewritten.exec Script.host { arenaSize := 1030 }
      (.initial { arenaSize := 1030 } 0 { files := [("f", "old\n")] }))).transcript.textsOf .output = ["old"] ∧
    (final (rewritten.exec Script.host { arenaSize := 1030 }
      (.initial { arenaSize := 1030 } 0 { files := [("f", "old\n")] }))).files.modified.map
        (fun entry => (entry.1, entry.2.contents)) = [("f", "old\n")] := by
  refine ⟨by decide +kernel, by decide +kernel, by decide +kernel⟩

end Pseudocode
