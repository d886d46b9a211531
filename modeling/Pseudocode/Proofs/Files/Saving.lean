import Mathlib.Control.Monad.Basic
import Pseudocode.CommandLine.Session
import Pseudocode.Proofs.Files.Runs
import Pseudocode.Proofs.Files.Tree
import Pseudocode.Proofs.Reading.Simulation

/-!
What a command leaves of the files that its program has written. Each is saved with the lines that it holds at the
end of the run, however that ends (`Session.run_saves`), so a file that was only extended is left with the lines
that were written during the run, and with no line that it had before (`appended_files_saved`).
-/

namespace Pseudocode.CommandLine

open Exec FileEvent

theorem runFileIn_eq {tree : FileTree} {file source : String} (read : tree.read file = .ok source)
    (options : Options) (input : String) (draws : Draws) (keys : List StepReply) :
    runFileIn tree file options input draws keys =
      ((Session.run options source draws (.ofTree tree input keys)).finish FileTree.save).run tree := by
  unfold runFileIn
  rw [read]

/-- A file of a tree is still to be saved with some content, or it has been, and nothing else is to be saved in its
place. -/
structure Pending (path content : String) (route : Route) (t : FileTree) (saves : List Save) : Prop where
  leads : t.Leads path route
  file : t.isDirectory route = false
  only : ∀ target text, .write target text ∈ saves → t.Leads target route → text = content
  due : .write path content ∈ saves ∨ t.file? route = some content

namespace Pending

variable {path content target text : String} {route : Route} {t t' : FileTree} {rest : List Save}

theorem refuse {warning : String} (h : Pending path content route t (.refuse warning :: rest)) :
    Pending path content route t rest where
  leads := h.leads
  file := h.file
  only target text mem := h.only target text (.tail _ mem)
  due := by simpa using h.due

/-- A file that is written is that file, with its content, or it lies elsewhere. -/
theorem write (h : Pending path content route t (.write target text :: rest)) (wrote : t.write target text = .ok t') :
    Pending path content route t' rest := by
  obtain ⟨route', leads', same, files⟩ := FileTree.write_eq_ok wrote
  have back : FileTree.SameDirectories t' t := fun route => (same route).symm
  refine ⟨h.leads.of_same same, (same route).trans h.file,
    fun target text mem there => h.only target text (.tail _ mem) (there.of_same back), ?_⟩
  by_cases here : route = route'
  · subst here
    rw [files, if_pos rfl, h.only target text (.head rest) leads']
    exact .inr rfl
  · rw [files, if_neg here]
    refine h.due.imp_left fun mem => ?_
    cases mem with
    | head => exact absurd (h.leads.unique leads') here
    | tail _ mem => exact mem

/-- A file that is there can be written. -/
theorem ne_of_error {e : PathError} {saves : List Save} (h : Pending path content route t saves)
    (failed : t.write target text = .error e) : target ≠ path := by
  rintro rfl
  obtain ⟨t', wrote⟩ := FileTree.write_of_leads h.leads h.file text
  cases failed.symm.trans wrote

end Pending

theorem go_write (s : Session) (path content err : String) (rest : List Save) (t : FileTree) :
    (Session.finish.go s FileTree.save err (.write path content :: rest)).run t =
      match t.write path content with
      | .ok t' => (Session.finish.go s FileTree.save err rest).run t'
      | .error e => (⟨s.terminal.out, err ++ failureText s!"cannot write {path}" e.message, 1⟩, t) := by
  simp only [Session.finish.go, bind, StateT.bind, StateT.run, FileTree.save]
  cases t.write path content <;> rfl

/-- A file that is to be saved is saved with its content, unless a file elsewhere cannot be written. -/
theorem finish_go (s : Session) {path content : String} {route : Route} {saves : List Save} {t : FileTree}
    (h : Pending path content route t saves) (err : String) :
    ((Session.finish.go s FileTree.save err saves).run t).2.read path = .ok content ∨
      ∃ target text err' reason, .write target text ∈ saves ∧ target ≠ path ∧
        ((Session.finish.go s FileTree.save err saves).run t).1 =
          ⟨s.terminal.out, err' ++ failureText s!"cannot write {target}" reason, 1⟩ := by
  induction saves generalizing t err with
  | nil =>
    rcases h.due with never | found
    · cases never
    · exact .inl (FileTree.read_of_leads h.leads found)
  | cons save rest ih =>
    cases save with
    | refuse warning =>
      obtain saved | ⟨target, text, err', reason, mem, failed⟩ := ih h.refuse (err ++ warning ++ "\n")
      · exact .inl saved
      · exact .inr ⟨target, text, err', reason, .tail _ mem, failed⟩
    | write target text =>
      rw [go_write]
      cases wrote : t.write target text with
      | error e => exact .inr ⟨target, text, err, e.message, .head rest, h.ne_of_error wrote, rfl⟩
      | ok t' =>
        obtain saved | ⟨target, text, err', reason, mem, failed⟩ := ih (h.write wrote) err
        · exact .inl saved
        · exact .inr ⟨target, text, err', reason, .tail _ mem, failed⟩

/-- What a run has written is saved however it ends. -/
theorem Session.run_saves {options : Options} {dir source : String} {p : Program}
    (saving : options.filesDir = some dir) (program : Program.ofSource source = .ok p) (draws : Draws)
    (world : World) :
    (Session.run options source draws world).saves =
      savesOf (final (p.exec Terminal.host options.config
        (.initial options.config draws { world, filesDir := dir }))).files dir := by
  unfold Session.run
  simp only [program, saving, Interpreter.run_new, Option.getD_some]

theorem mem_savesOf {files : FileStore} {dir path content : String} :
    .write path content ∈ savesOf files dir ↔
      ∃ name b, (name, b) ∈ files.modified ∧ pathInDir? dir name = some path ∧ b.contents = content := by
  unfold savesOf
  rw [List.mem_map]
  constructor
  · rintro ⟨⟨name, b⟩, mem, made⟩
    dsimp only at made
    split at made
    case h_1 inside =>
      cases made
      exact ⟨name, b, mem, inside, rfl⟩
    · cases made
  · rintro ⟨name, b, mem, inside, rfl⟩
    refine ⟨(name, b), mem, ?_⟩
    dsimp only
    rw [inside]

/-- No file of a tree is a directory. -/
def FileTree.Consistent (t : FileTree) : Prop := ∀ file ∈ t.files, t.isDirectory file.1 = false

/-- A file that was there before a run is opened, but only to be extended, and nothing else is saved in its place. -/
structure Extended (tree : FileTree) (dir name path : String) (es : List FileEvent) : Prop where
  inside : pathInDir? dir name = some path
  there : ∃ old, tree.read path = .ok old
  opened : ∃ content, .opened name .append content ∈ es
  only : ∀ mode content, .opened name mode content ∈ es → mode = .append
  alone : ∀ e ∈ es, e.Claims e.name → e.name ≠ name → ∀ target, pathInDir? dir e.name = some target →
    ∀ route, tree.Leads path route → ¬ tree.Leads target route

namespace Extended

variable {tree : FileTree} {dir name path : String} {es : List FileEvent} (h : Extended tree dir name path es)

include h

/-- The file holds what was written, and nothing else. -/
theorem held_eq : held name es = es.filterMap (lineWritten? name) := by
  have kept : ∀ e ∈ es, ¬ e.Replaces name := by
    rintro (⟨other, _ | _ | _, _ | text⟩ | _ | _ | _) mem replaces <;>
      first | exact replaces | (obtain rfl := replaces; cases h.only _ _ mem)
  exact held_append [] kept

theorem claimed : ∃ e ∈ es, e.Claims name := by
  obtain ⟨content, mem⟩ := h.opened
  exact ⟨_, mem, rfl, nofun⟩

/-- At the end of the run the file is to be saved with what was written. -/
theorem pending (consistent : tree.Consistent) {s : FileStore} (reached : Reached es s) :
    ∃ route, Pending path (Text.unlines (es.filterMap (lineWritten? name))) route tree (savesOf s dir) := by
  obtain ⟨old, there⟩ := h.there
  obtain ⟨route, leads, found⟩ := FileTree.read_eq_ok there
  obtain ⟨first, rest, files, -⟩ := List.lookup_eq_some_iff.1 found
  rw [← h.held_eq]
  refine ⟨route, leads, consistent (route, old) (by simp [files]), fun target text saved leads' => ?_, .inl ?_⟩
  · obtain ⟨other, b, mem, inside, rfl⟩ := mem_savesOf.1 saved
    obtain ⟨lines, e, among, claims⟩ := reached.of_mem_modified mem
    by_cases same : other = name
    · subst same
      exact congrArg Text.unlines lines
    · obtain rfl := claims.name_eq
      exact absurd leads' (h.alone e among claims same target inside route leads)
  · obtain ⟨b, mem, lines⟩ := reached.mem_modified h.claimed
    exact mem_savesOf.2 ⟨name, b, mem, h.inside, congrArg Text.unlines lines⟩

end Extended

/-- A run of a program file saves a file that the program has only opened to be extended with the lines that were
written to it, each with a line feed, whatever the file held before and however the program has ended: at its end, by
an error, or by a key that was pressed while it paused; or the run says which other file it could not write. -/
theorem appended_files_saved {tree : FileTree} {file source dir : String} {options : Options} {p : Program}
    (consistent : tree.Consistent) (saving : options.filesDir = some dir) (read : tree.read file = .ok source)
    (program : Program.ofSource source = .ok p) (input : String) (draws : Draws) (keys : List StepReply) :
    let start : Terminal := { world := .ofTree tree input keys, filesDir := dir }
    let ended := runFileIn tree file options input draws keys
    (∃ es, p.FileHistory Terminal.host options.config draws start es) ∧
    ∀ es, p.FileHistory Terminal.host options.config draws start es →
      ∀ name path, Extended tree dir name path es →
        ended.2.read path = .ok (Text.unlines (es.filterMap (lineWritten? name))) ∨
        ∃ other target err reason, other ≠ name ∧ pathInDir? dir other = some target ∧ ended.1.exit = 1 ∧
          ended.1.err = err ++ failureText s!"cannot write {target}" reason := by
  rw [runFileIn_eq read]
  refine ⟨p.exists_fileHistory .., fun es history name path extended => ?_⟩
  obtain ⟨route, pending⟩ := extended.pending consistent history.reached_last
  have saves := Session.run_saves saving program draws (.ofTree tree input keys)
  rw [← saves] at pending
  obtain saved | ⟨target, text, err, reason, mem, elsewhere, failed⟩ :=
    finish_go (Session.run options source draws (.ofTree tree input keys)) pending _
  · exact .inl saved
  · rw [saves] at mem
    obtain ⟨other, -, -, inside, -⟩ := mem_savesOf.1 mem
    refine .inr ⟨other, target, err, reason, ?_, inside, ?_, ?_⟩
    · rintro rfl
      exact elsewhere (Option.some.inj (inside.symm.trans extended.inside))
    · exact congrArg Report.exit failed
    · exact congrArg Report.err failed

/-- A program that extends a file and then fails. -/
def logText : String := "OPENFILE \"log\" FOR APPEND\nWRITEFILE \"log\", \"new\"\nOUTPUT x"

def logging : Program where
  statements :=
    [.openFile (.literal (.string "log") ⟨1, 10⟩) .append ⟨1, 1⟩,
      .writeFile (.literal (.string "log") ⟨2, 11⟩) (.literal (.string "new") ⟨2, 18⟩) ⟨2, 1⟩,
      .output [.identifier "x" ⟨3, 8⟩] ⟨3, 1⟩]

theorem logText_read : Program.ofSource logText = .ok logging := by
  have tokens : tokenize logText = .ok
      [⟨.keyword, "OPENFILE", ⟨1, 1⟩⟩, ⟨.string, "log", ⟨1, 10⟩⟩, ⟨.keyword, "FOR", ⟨1, 16⟩⟩,
        ⟨.keyword, "APPEND", ⟨1, 20⟩⟩, ⟨.newline, "\n", ⟨1, 26⟩⟩, ⟨.keyword, "WRITEFILE", ⟨2, 1⟩⟩,
        ⟨.string, "log", ⟨2, 11⟩⟩, ⟨.comma, ",", ⟨2, 16⟩⟩, ⟨.string, "new", ⟨2, 18⟩⟩, ⟨.newline, "\n", ⟨2, 23⟩⟩,
        ⟨.keyword, "OUTPUT", ⟨3, 1⟩⟩, ⟨.identifier, "x", ⟨3, 8⟩⟩, ⟨.endOfInput, "", ⟨3, 9⟩⟩] := rfl
  exact (Program.ofSource_eq tokens).trans rfl

/-- A working directory with the program, and with the file below another directory. -/
def logTree : FileTree := .ofList [("p", logText), ("d/log", "old\n")]

def logOptions (debug : Bool) : Options := ⟨{ arenaSize := 1030, debug }, false, none, some "d"⟩

/-- What was written is saved, though the run has failed. -/
theorem log_saved :
    let ended := runFileIn logTree "p" (logOptions false) "" 0 []
    ∃ es, logging.FileHistory Terminal.host { arenaSize := 1030 } 0
        { world := .ofTree logTree "" [], filesDir := "d" } es ∧
      Extended logTree "d" "log" "d/log" es ∧ es.filterMap (lineWritten? "log") = ["new"] ∧
      (ended.2.read "d/log" = .ok (Text.unlines ["new"]) ∨
        ∃ other target err reason, other ≠ "log" ∧ pathInDir? "d" other = some target ∧ ended.1.exit = 1 ∧
          ended.1.err = err ++ failureText s!"cannot write {target}" reason) := by
  let start : Terminal := { world := .ofTree logTree "" [], filesDir := "d" }
  let store (lines : Array String) : FileStore := ⟨[("log", ⟨lines, some .append, 0, true⟩)]⟩
  have stores : (logging.observe Terminal.host { arenaSize := 1030 } (500 + 100000 + 1)
      (.initial { arenaSize := 1030 } 0 start)).states.map (·.files) =
        [.empty, store #[], store #[], store #["new"], store #["new"], store #["new"], store #["new"]] := by
    decide +kernel
  have last : (final (logging.exec Terminal.host { arenaSize := 1030 }
      (.initial { arenaSize := 1030 } 0 start))).files = store #["new"] := by
    decide +kernel
  have history : logging.FileHistory Terminal.host { arenaSize := 1030 } 0 start
      [.opened "log" .append none, .wrote "log" "new"] := by
    rw [Program.FileHistory, last, stores]
    exact .same (.event rfl rfl (.same (.event trivial rfl (.same (.same (.same (.last _)))))))
  have extended : Extended logTree "d" "log" "d/log" [.opened "log" .append none, .wrote "log" "new"] := by
    refine ⟨by decide +kernel, ⟨"old\n", by decide +kernel⟩, ⟨none, List.mem_cons_self⟩, fun mode content mem => ?_,
      fun e mem _ other => absurd ?_ other⟩
    · exact (by simpa using mem : mode = .append ∧ content = none).1
    · rcases List.mem_cons.1 mem with rfl | mem
      · rfl
      · rw [List.mem_singleton.1 mem]
        rfl
  have consistent : logTree.Consistent := by
    have checked : (logTree.files.all fun file => !logTree.isDirectory file.1) = true := by decide +kernel
    simpa [FileTree.Consistent] using checked
  have saved := appended_files_saved consistent (rfl : (logOptions false).filesDir = some "d")
    (by decide +kernel : logTree.read "p" = .ok logText) logText_read "" 0 []
  exact ⟨_, history, extended, rfl, saved.2 _ history _ _ extended⟩

/-- The line that the file held before is lost, when the run fails and when it is stopped by a key. -/
theorem log_lost :
    logTree.read "d/log" = .ok "old\n" ∧
      (runFileIn logTree "p" (logOptions false) "" 0 []).2.read "d/log" = .ok "new\n" ∧
      (runFileIn logTree "p" (logOptions true) "" 0 [.resume, .resume, .stop]).2.read "d/log" = .ok "new\n" := by
  have read : logTree.read "p" = .ok logText := by decide +kernel
  rw [runFileIn_eq read, runFileIn_eq read, Session.run, Session.run, logText_read]
  refine ⟨?_, ?_, ?_⟩ <;> decide +kernel

end Pseudocode.CommandLine
