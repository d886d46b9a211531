import Pseudocode.Proofs.Comparison.Hosts
import Pseudocode.Proofs.Files.Paths
import Pseudocode.Proofs.Files.Saving

/-!
The files of a program lie below one directory (`files_stay_below`). Terminals that know of the same files there give
the same answers (`Terminal.respects`), so no run depends on a file elsewhere (`Session.run_withFiles`), and all that
a session writes lies there too (`Session.below_of_mem_saves`).
-/

namespace Pseudocode.CommandLine

open Exec

section Terminals

/-- The terminal, where other files are known. -/
def Terminal.withFiles (t : Terminal) (files : String → Option (Option String)) : Terminal :=
  { t with world := { t.world with files } }

/-- Terminals that differ at most in the files they know of. The first has not asked for a file that does not lie
below the directory. -/
structure Terminal.Alike (dir : String) (files files' : String → Option (Option String)) (t t' : Terminal) : Prop where
  filesDir : t.filesDir = dir
  known : t.world.files = files
  needs : ∀ path, t.needs = some (.file path) → Below dir path
  same : t' = t.withFiles files'

namespace Terminal

variable {dir : String} {files files' : String → Option (Option String)} {t t' : Terminal}

namespace Alike

variable (h : Alike dir files files' t t')

include h

/-- What is only shown leaves terminals alike. -/
theorem shown (out err : String → String) :
    Alike dir files files' { t with out := out t.out, err := err t.err }
      { t' with out := out t'.out, err := err t'.err } := by
  obtain ⟨filesDir, known, needs, rfl⟩ := h
  exact ⟨filesDir, known, needs, rfl⟩

theorem emit (l : OutputLine) : Alike dir files files' (t.emit l) (t'.emit l) := by
  unfold Terminal.emit
  cases l.kind with
  | output | fileWrite => exact h.shown (· ++ _ ++ "\n") id
  | inputEcho => exact h

theorem complain (line : String) : Alike dir files files' (t.complain line) (t'.complain line) :=
  h.shown id (· ++ line ++ "\n")

theorem complainAll {α : Type} (line : α → String) (entries : List α) :
    Alike dir files files' (entries.foldl (fun t entry => t.complain (line entry)) t)
      (entries.foldl (fun t entry => t.complain (line entry)) t') := by
  induction entries generalizing t t' with
  | nil => exact h
  | cons entry rest ih => exact ih (h.complain (line entry))

theorem requestInput (name : String) (type : DataType) :
    (t'.requestInput name type).1 = (t.requestInput name type).1 ∧
      Alike dir files files' (t.requestInput name type).2 (t'.requestInput name type).2 := by
  obtain ⟨filesDir, known, needs, rfl⟩ := h
  obtain ⟨⟨_, inputs, ended, _⟩, _, out, err, _⟩ := t
  cases inputs with
  | cons text rest => exact ⟨rfl, filesDir, known, needs, rfl⟩
  | nil =>
    cases ended with
    | true => exact ⟨rfl, filesDir, known, needs, rfl⟩
    | false => exact ⟨rfl, filesDir, known, nofun, rfl⟩

theorem pressKey :
    t'.pressKey.1 = t.pressKey.1 ∧ Alike dir files files' t.pressKey.2 t'.pressKey.2 := by
  obtain ⟨filesDir, known, needs, rfl⟩ := h
  obtain ⟨⟨_, _, _, keys⟩, _, _, _, _⟩ := t
  cases keys with
  | nil => exact ⟨rfl, filesDir, known, needs, rfl⟩
  | cons reply rest => exact ⟨rfl, filesDir, known, needs, rfl⟩

theorem step (snapshot : Snapshot) :
    (t'.step snapshot).1 = (t.step snapshot).1 ∧ Alike dir files files' (t.step snapshot).2 (t'.step snapshot).2 :=
  ((h.complain _).complainAll _ _).pressKey

/-- Only a file below the directory is looked up, and of that the terminals know the same. -/
theorem requestFile (agree : ∀ path, Below dir path → files' path = files path) (name : String) :
    (t'.requestFile name).1 = (t.requestFile name).1 ∧
      Alike dir files files' (t.requestFile name).2 (t'.requestFile name).2 := by
  obtain ⟨place, known, needs, rfl⟩ := h
  have place' : (t.withFiles files').filesDir = dir := place
  unfold Terminal.requestFile
  rw [place, place', known]
  cases accepted : pathInDir? dir name with
  | none => exact ⟨rfl, place, known, needs, rfl⟩
  | some path =>
    have below := below_of_pathInDir? accepted
    have known' : (t.withFiles files').world.files path = files path := agree path below
    dsimp only
    rw [known']
    cases files path with
    | some content => exact ⟨rfl, place, known, needs, rfl⟩
    | none =>
      refine ⟨rfl, rfl, known, fun asked there => ?_, rfl⟩
      cases there
      exact below

end Alike

theorem respects (agree : ∀ path, Below dir path → files' path = files path) :
    host.Respects (Alike dir files files') where
  emit l h := h.emit l
  step snapshot h := h.step snapshot
  requestInput name type h := h.requestInput name type
  requestFile name h := h.requestFile agree name
  cancelled h := by
    obtain ⟨filesDir, known, needs, rfl⟩ := h
    exact ⟨rfl, filesDir, known, needs, rfl⟩

end Terminal

end Terminals

section Sessions

variable {options : Options} {source : String} {draws : Draws} {world : World}
  {files : String → Option (Option String)}

/-- The session, where other files are known. -/
def Session.withFiles (s : Session) (files : String → Option (Option String)) : Session :=
  { s with terminal := s.terminal.withFiles files }

/-- A run comes to the same wherever the same files are known below the directory, and stops for no other file. -/
theorem Session.run_withFiles (agree : ∀ path, Below (options.filesDir.getD ".") path → files path = world.files path) :
    Session.run options source draws { world with files } = (Session.run options source draws world).withFiles files ∧
      ∀ path, (Session.run options source draws world).terminal.needs = some (.file path) →
        Below (options.filesDir.getD ".") path := by
  unfold Session.run
  cases Program.ofSource source with
  | error e => exact ⟨rfl, nofun⟩
  | ok program =>
    obtain ⟨same, state, ⟨-, -, needs, rfl⟩, last⟩ := (Terminal.respects agree).exec program options.config draws
      (s := { world, filesDir := options.filesDir.getD "." }) ⟨rfl, rfl, nofun, rfl⟩
    simp only [Interpreter.run_new]
    refine ⟨?_, needs⟩
    rw [show ({ world := { world with files }, filesDir := options.filesDir.getD "." } : Terminal) =
      Terminal.withFiles { world, filesDir := options.filesDir.getD "." } files from rfl, same, last]
    rfl

/-- Every file that is saved lies below the directory, and without one nothing is saved. -/
theorem Session.below_of_mem_saves {path content : String}
    (mem : .write path content ∈ (Session.run options source draws world).saves) :
    ∃ dir, options.filesDir = some dir ∧ Below dir path := by
  unfold Session.run at mem
  cases program : Program.ofSource source with
  | error e =>
    rw [program] at mem
    cases mem
  | ok p =>
    simp only [program, Interpreter.run_new] at mem
    cases saving : options.filesDir with
    | none =>
      rw [saving] at mem
      cases mem
    | some dir =>
      rw [saving] at mem
      obtain ⟨name, -, -, accepted, -⟩ := mem_savesOf.1 mem
      exact ⟨dir, rfl, below_of_pathInDir? accepted⟩

/-- A session writes nothing but what it is to save. -/
theorem Session.finish_congr {m : Type → Type} [Monad m] (s : Session)
    {write write' : String → String → m (Option String)}
    (same : ∀ path content, .write path content ∈ s.saves → write' path content = write path content) :
    s.finish write' = s.finish write := by
  unfold Session.finish
  generalize s.terminal.err = err
  generalize s.saves = saves at same
  induction saves generalizing err with
  | nil => rfl
  | cons save rest ih =>
    have later (err : String) := ih err fun path content mem => same path content (.tail _ mem)
    cases save with
    | refuse warning => exact later _
    | write path content =>
      rw [Session.finish.go, Session.finish.go, same path content (.head rest)]
      refine congrArg (write path content >>= ·) (funext fun failed => ?_)
      cases failed with
      | none => exact later err
      | some reason => rfl

end Sessions

/-- The files of a program cannot leave its directory. A name is given a path just if it has a component, does not
begin at the root or with a dot, and never goes up; the path is then that of the directory, with the name behind it,
and in normal form the directory is followed by the components of the name, which are ordinary. So a run stops to ask
for no file but those below the directory, comes to the same whatever is known of files elsewhere, and writes nothing
elsewhere, however it writes. -/
theorem files_stay_below :
    (∀ dir name : String,
      ((∃ path, pathInDir? dir name = some path) ↔
        components name.toList ≠ [] ∧ (components name.toList).head? ≠ some .root ∧
          (components name.toList).head? ≠ some .current ∧ .parent ∉ components name.toList) ∧
      ((∃ path, pathInDir? dir name = some path) ↔ Confined name.toList) ∧
      ∀ path, pathInDir? dir name = some path → path = join dir name ∧
        ∃ names : List (List Char), names ≠ [] ∧ components name.toList = names.map .ordinary ∧
          normalise path = normalise dir ++ names.map .ordinary) ∧
    ∀ (options : Options) (source : String) (draws : Draws) (world : World),
      let dir := options.filesDir.getD "."
      let s := Session.run options source draws world
      (∀ path, s.terminal.needs = some (.file path) → Below dir path) ∧
      (∀ files, (∀ path, Below dir path → files path = world.files path) →
        Session.run options source draws { world with files } = s.withFiles files) ∧
      (∀ path content, .write path content ∈ s.saves → options.filesDir = some dir ∧ Below dir path) ∧
      ∀ (M : Type → Type) [Monad M] (write write' : String → String → M (Option String)),
        (∀ path content, Below dir path → write' path content = write path content) →
          s.finish write' = s.finish write := by
  refine ⟨fun dir name => ?_, fun options source draws world => ?_⟩
  · have accepted : (∃ path, pathInDir? dir name = some path) ↔ Confined name.toList := by
      simp only [pathInDir?_eq_some_iff, exists_and_left, exists_eq, and_true]
    refine ⟨?_, accepted, fun path given => ?_⟩
    · rw [accepted, confined_iff, ordinary_iff, lead_eq_nil_iff_head?, and_assoc]
    · obtain ⟨confined, rfl⟩ := pathInDir?_eq_some_iff.1 given
      obtain ⟨names, filled, shown⟩ := confined.exists_names
      exact ⟨rfl, names, filled, shown, by rw [normalise_join confined, shown]⟩
  · intro dir s
    have saved (path content : String) (mem : .write path content ∈ s.saves) :
        options.filesDir = some dir ∧ Below dir path := by
      obtain ⟨given, saving, below⟩ := Session.below_of_mem_saves mem
      have same : dir = given := congrArg (·.getD ".") saving
      exact same ▸ ⟨saving, below⟩
    refine ⟨(Session.run_withFiles fun _ _ => rfl).2, fun files agree => (Session.run_withFiles agree).1, saved, ?_⟩
    intro M _ write write' same
    exact s.finish_congr fun path content mem => same path content (saved path content mem).2

/-- A file of the same name that lies beside the directory is not read, and one that lies in it is asked for. -/
theorem notes_stay_below :
    let options : Options := ⟨{ arenaSize := 1030 }, false, none, some "d"⟩
    let source := "OPENFILE \"x\" FOR READ"
    let nothing : World := ⟨fun _ => none, [], true, []⟩
    let beside : String → Option (Option String) := fun path => if path = "x" then some (some "text") else none
    pathInDir? "d" "a//./b" = some "d/a//./b" ∧ Confined "a//./b".toList ∧ pathInDir? "d" "a/../b" = none ∧
      (Session.run options source 0 nothing).terminal.needs = some (.file "d/x") ∧ Below "d" "d/x" ∧
      Session.run options source 0 { nothing with files := beside } =
        (Session.run options source 0 nothing).withFiles beside := by
  intro options source nothing beside
  obtain ⟨names, runs⟩ := files_stay_below
  have accepted : pathInDir? "d" "a//./b" = some "d/a//./b" := by decide +kernel
  have tokens : tokenize "OPENFILE \"x\" FOR READ" = .ok
      [⟨.keyword, "OPENFILE", ⟨1, 1⟩⟩, ⟨.string, "x", ⟨1, 10⟩⟩, ⟨.keyword, "FOR", ⟨1, 14⟩⟩,
        ⟨.keyword, "READ", ⟨1, 18⟩⟩, ⟨.endOfInput, "", ⟨1, 22⟩⟩] := rfl
  have read : Program.ofSource source = .ok ⟨[.openFile (.literal (.string "x") ⟨1, 10⟩) .read ⟨1, 1⟩]⟩ :=
    (Program.ofSource_eq tokens).trans rfl
  have asked : (Session.run options source 0 nothing).terminal.needs = some (.file "d/x") := by
    rw [Session.run, read]
    decide +kernel
  obtain ⟨needs, elsewhere, -, -⟩ := runs options source 0 nothing
  refine ⟨accepted, (names "d" "a//./b").2.1.1 ⟨_, accepted⟩, by decide +kernel, asked, needs "d/x" asked,
    elsewhere beside fun path ⟨names, _, found⟩ => if_neg ?_⟩
  rintro rfl
  have first : (normalise "x").head? = some (.ordinary ['x']) := by decide +kernel
  have other : normalise (options.filesDir.getD ".") = [.ordinary ['d']] := by decide +kernel
  rw [found, other] at first
  cases first

end Pseudocode.CommandLine
