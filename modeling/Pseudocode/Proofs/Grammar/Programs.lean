import Pseudocode.Proofs.Grammar.Blocks
import Pseudocode.Proofs.Reading.Simulation

/-!
Every well-formed program can be written line by line, and however it is written, it is read back but for the places
in it (`programs_read_back`).
-/

namespace Pseudocode

open Reader

section Parts

variable {e : Expr} {type : DataType} {ts : List Token}

/-- An expression that can be written and is not nested too deeply to be read. -/
def Expr.Readable (e : Expr) : Prop := e.Writable ∧ e.depth < maxNesting

/-- The same for what a statement stores to. -/
def Expr.Storable (e : Expr) : Prop := e.IsTarget ∧ e.Writable ∧ e.depth ≤ maxNesting

def DataType.Readable (type : DataType) : Prop := type.Writable ∧ type.depth ≤ maxNesting

theorem Expr.Readable.shows (h : e.Readable) : ∃ ts, Shows expression e ts := by
  obtain ⟨ts, spelled⟩ := Expr.Writable.spelled e h.1 .disjunction .start
  have read := (spelled.read.inside .start maxNesting [] nofun).reads h.2
  rw [List.append_nil] at read
  exact ⟨ts, .start, read⟩

theorem DataType.Readable.shows (h : type.Readable) : ∃ ts, Shows Reader.type type ts := by
  obtain ⟨ts, spelled⟩ := h.1.spelled .start
  have read : (Reader.type : Reader _) .start (ts ++ []) = .ok (type, []) :=
    (typeClause_yields spelled maxNesting []).reads h.2
  rw [List.append_nil] at read
  exact ⟨ts, .start, read⟩

/-- What a statement stores to can be written so that a statement can start with it. -/
theorem Expr.Storable.shows (h : e.Storable) : ∃ t ts, Shows (Reader.unary outermost) e (t :: ts) ∧
    (t.kind = .identifier ∨ t.isOperator "*" = true) := by
  obtain ⟨isTarget, writable, shallow⟩ := h
  obtain ⟨us, bare⟩ := Expr.Writable.bare e writable
  have tight : Level.unary ≤ e.level := by
    cases e with
    | identifier | element => exact Level.le_primary .unary
    | dereference => exact Nat.le_refl _
    | _ => exact isTarget.elim
  have depth : e.depthAt .unary = e.depth := if_pos tight
  have stops : Stops .unary [] := nofun
  have read := ((Expr.Spelled.bare tight bare).read.yields stops .start maxNesting).reads (depth ▸ shallow)
  rw [List.append_nil] at read
  have first : ∃ t ts, us = t :: ts ∧ (t.kind = .identifier ∨ t.isOperator "*" = true) := by
    cases bare with
    | identifier | element => exact ⟨_, _, rfl, .inl rfl⟩
    | dereference => exact ⟨_, _, rfl, .inr rfl⟩
    | _ => exact isTarget.elim
  obtain ⟨t, ts, rfl, starts⟩ := first
  exact ⟨t, ts, ⟨.start, read⟩, starts⟩

end Parts

namespace Stmt

mutual

theorem depth_unplaced : ∀ s : Stmt, s.unplaced.depth = s.depth
  | .ifThen _ body other _ => by
    rw [unplaced, depth, depth, blockDepth_unplaced body, otherDepth_unplaced other]
  | .whileDo _ body _ | .repeatUntil body _ _ | .forTo _ _ _ _ body _ => blockDepth_unplaced body
  | .caseOf _ branches other _ => by
    rw [unplaced, depth, depth, branchesDepth_unplaced branches, otherDepth_unplaced other]
  | .define ⟨_, _, _, body, _⟩ => blockDepth_unplaced body
  | .declare .. | .constant .. | .assign .. | .output .. | .input .. | .call .. | .giveBack .. | .openFile ..
  | .readFile .. | .writeFile .. | .closeFile .. | .free .. => rfl

theorem blockDepth_unplaced : ∀ body : List Stmt, blockDepth (unplacedBlock body) = blockDepth body
  | [] => rfl
  | s :: body => by rw [unplacedBlock, blockDepth, blockDepth, depth_unplaced s, blockDepth_unplaced body]

theorem otherDepth_unplaced : ∀ other : Option (List Stmt), otherDepth (unplacedOther other) = otherDepth other
  | none => rfl
  | some body => blockDepth_unplaced body

theorem branchesDepth_unplaced : ∀ branches : List (CaseBranch Stmt),
    branchesDepth (unplacedBranches branches) = branchesDepth branches
  | [] => rfl
  | ⟨_, body, _⟩ :: branches => by
    rw [unplacedBranches, branchesDepth, branchesDepth, blockDepth_unplaced body, branchesDepth_unplaced branches]

end

end Stmt

def CaseLabel.WellFormed : CaseLabel → Prop
  | .value v => v ≠ .null
  | .range low high => low ≠ .null ∧ high ≠ .null

namespace Stmt

mutual

/-- A statement that the grammar provides for. -/
def WellFormed : Reader.Level → Stmt → Prop
  | _, .declare _ type _ => type.Readable
  | _, .constant _ value _ => value.Readable
  | _, .assign target value _ => target.Storable ∧ value.Readable
  | _, .output items _ => items ≠ [] ∧ ∀ e ∈ items, e.Readable
  | _, .input target _ => target.Storable
  | _, .ifThen condition body other _ => condition.Readable ∧ BlockWellFormed .inside body ∧ OtherWellFormed other
  | _, .whileDo condition body _ => condition.Readable ∧ BlockWellFormed .inside body
  | _, .repeatUntil body condition _ => BlockWellFormed .inside body ∧ condition.Readable
  | _, .forTo _ start stop step body _ =>
    start.Readable ∧ stop.Readable ∧ (∀ e ∈ step, e.Readable) ∧ BlockWellFormed .inside body
  | _, .caseOf subject branches other _ => subject.Readable ∧ BranchesWellFormed branches ∧ OtherWellFormed other
  | level, .define ⟨_, params, returns, body, _⟩ =>
    level = .top ∧ (∀ p ∈ params, p.type.Readable) ∧ (params.map (·.name)).Nodup ∧ (∀ type ∈ returns, type.Readable) ∧
      BlockWellFormed .inside body
  | _, .call _ args _ => ∀ e ∈ args, e.Readable
  | _, .giveBack value _ => ∀ e ∈ value, e.Readable
  | _, .openFile file _ _ => file.Readable
  | _, .readFile file target _ => file.Readable ∧ target.Storable
  | _, .writeFile file value _ => file.Readable ∧ value.Readable
  | _, .closeFile file _ => file.Readable
  | _, .free pointer _ => pointer.Readable

def BlockWellFormed : Reader.Level → List Stmt → Prop
  | _, [] => True
  | level, s :: body => s.WellFormed level ∧ BlockWellFormed level body

def OtherWellFormed : Option (List Stmt) → Prop
  | none => True
  | some body => BlockWellFormed .inside body

def BranchesWellFormed : List (CaseBranch Stmt) → Prop
  | [] => True
  | ⟨label, body, _⟩ :: branches => label.WellFormed ∧ BlockWellFormed .inside body ∧ BranchesWellFormed branches

end

end Stmt

section Existence

theorem Literal.exists_labels {v : Literal} (h : v ≠ .null) (l : Location) : ∃ ts, v.Labels l ts := by
  obtain ⟨kind, text, spelled⟩ := v.exists_spelled
  exact ⟨_, .plain l h spelled⟩

theorem CaseLabel.WellFormed.spelled {label : CaseLabel} (h : label.WellFormed) (l : Location) :
    ∃ ts, label.Spelled l ts := by
  cases label with
  | value v =>
    obtain ⟨ts, labels⟩ := Literal.exists_labels h l
    exact ⟨ts, .value labels⟩
  | range low high =>
    obtain ⟨ts, first⟩ := Literal.exists_labels h.1 l
    obtain ⟨us, last⟩ := Literal.exists_labels h.2 l
    exact ⟨_, .range l first last⟩

theorem exists_params {ps : List Param} (some : ps ≠ []) (h : ∀ p ∈ ps, p.type.Readable) (before : PassMode) :
    ∃ ts, Params before ps ts := by
  induction ps generalizing before with
  | nil => contradiction
  | cons p ps ih =>
    obtain ⟨readable, others⟩ := List.forall_mem_cons.1 h
    obtain ⟨ts, shown⟩ := readable.shows
    have spelled : p.Spelled before _ := .stated ":" .start .start .start shown
    cases ps with
    | nil => exact ⟨_, .one spelled⟩
    | cons q ps =>
      obtain ⟨us, params⟩ := ih nofun others p.mode
      exact ⟨_, .more "," .start spelled params⟩

theorem exists_enclosed {α : Type} {Item : List α → List Token → Prop} {as : List α}
    (h : as ≠ [] → ∃ ts, Item as ts) : ∃ ts, Enclosed Item as ts := by
  by_cases empty : as = []
  · exact ⟨[], empty ▸ .absent⟩
  · obtain ⟨ts, items⟩ := h empty
    exact ⟨_, .some "(" ")" .start .start items⟩

theorem exists_separated {es : List Expr} (some : es ≠ []) (h : ∀ e ∈ es, e.Readable) :
    ∃ ts, Separated (Shows expression) es ts :=
  Separated.exists_of_forall .start some fun e mem => (h e mem).shows

theorem exists_returns {returns : Option DataType} (h : ∀ type ∈ returns, type.Readable) :
    ∃ ts, Returns returns ts := by
  cases returns with
  | none => exact ⟨_, .none⟩
  | some type =>
    obtain ⟨ts, shown⟩ := (h type rfl).shows
    exact ⟨_, .some .start shown⟩

theorem exists_clause {step : Option Expr} (h : ∀ e ∈ step, e.Readable) (word : String) :
    ∃ ts, Clause word step ts := by
  cases step with
  | none => exact ⟨_, .absent⟩
  | some e =>
    obtain ⟨ts, shown⟩ := (h e rfl).shows
    exact ⟨_, .present .start shown⟩

-- The tokens get the places of the statements; only an assignment stands where its target does.
mutual

theorem Stmt.WellFormed.line : ∀ (level : Reader.Level) (s : Stmt), s.WellFormed level →
    ∃ s' ts, s'.unplaced = s.unplaced ∧ Line level [s'] ts
  | level, .declare name type l, readable => by
    obtain ⟨ts, shown⟩ := DataType.Readable.shows readable
    have line : Line level ([name].map (.declare · type l)) _ := .declare ":" l l (.one ⟨l, rfl⟩) shown
    exact ⟨_, _, rfl, line⟩
  | _, .constant name value l, readable => by
    obtain ⟨ts, shown⟩ := Expr.Readable.shows readable
    have equals : (⟨.operator, "=", l⟩ : Token).isOperator "=" = true := rfl
    exact ⟨_, _, rfl, .one (.constant name l l (.inl equals) shown)⟩
  | _, .assign target value l, ⟨storable, readable⟩ => by
    obtain ⟨t, ts, stored, starts⟩ := storable.shows
    obtain ⟨us, shown⟩ := readable.shows
    exact ⟨.assign target value t.location, _, rfl, .one (.assign "←" l storable.1 stored starts shown)⟩
  | _, .output items l, ⟨nonempty, readable⟩ => by
    obtain ⟨ts, shown⟩ := exists_separated nonempty readable
    exact ⟨_, _, rfl, .one (.output l shown)⟩
  | _, .input target l, storable => by
    obtain ⟨t, ts, stored, -⟩ := Expr.Storable.shows storable
    exact ⟨_, _, rfl, .one (.input l storable.1 stored)⟩
  | _, .ifThen condition body other l, ⟨readable, block, others⟩ => by
    obtain ⟨cs, shown⟩ := readable.shows
    obtain ⟨body', us, same, lines⟩ := BlockWellFormed.lines .inside body block
    obtain ⟨other', vs, same', otherwise⟩ := OtherWellFormed.else other others
    refine ⟨.ifThen condition body' other' l, _, ?_, .ifThen l l shown (.line "\n" l) lines otherwise⟩
    rw [Stmt.unplaced, Stmt.unplaced, same, same']
  | _, .whileDo condition body l, ⟨readable, block⟩ => by
    obtain ⟨cs, shown⟩ := readable.shows
    obtain ⟨body', us, same, lines⟩ := BlockWellFormed.lines .inside body block
    refine ⟨.whileDo condition body' l, _, ?_, .whileDo "\n" l l l shown .absent lines⟩
    rw [Stmt.unplaced, Stmt.unplaced, same]
  | _, .repeatUntil body condition l, ⟨block, readable⟩ => by
    obtain ⟨cs, shown⟩ := readable.shows
    obtain ⟨body', us, same, lines⟩ := BlockWellFormed.lines .inside body block
    refine ⟨.repeatUntil body' condition l, _, ?_, .repeatUntil "\n" l l l lines shown⟩
    rw [Stmt.unplaced, Stmt.unplaced, same]
  | _, .forTo counter start stop step body l, ⟨first, last, stepped, block⟩ => by
    obtain ⟨ss, first⟩ := first.shows
    obtain ⟨es, last⟩ := last.shows
    obtain ⟨ds, clause⟩ := exists_clause stepped "STEP"
    obtain ⟨body', us, same, lines⟩ := BlockWellFormed.lines .inside body block
    refine ⟨.forTo counter start stop step body' l, _, ?_,
      .forTo counter "←" "\n" l l l l l l first last clause lines .absent⟩
    rw [Stmt.unplaced, Stmt.unplaced, same]
  | _, .caseOf subject branches other l, ⟨readable, labelled, others⟩ => by
    obtain ⟨cs, shown⟩ := readable.shows
    obtain ⟨other', us, same', last⟩ := OtherWellFormed.otherwise other others
    obtain ⟨branches', vs, same, written⟩ := BranchesWellFormed.branches branches labelled last
    have noGap : Blank [] := nofun
    refine ⟨.caseOf subject branches' other' l, _, ?_, .caseOf "\n" l l l l shown noGap written⟩
    rw [Stmt.unplaced, Stmt.unplaced, same, same']
  | _, .define ⟨name, params, returns, body, l⟩, ⟨rfl, readable, distinct, given, block⟩ => by
    obtain ⟨ps, enclosed⟩ := exists_enclosed fun some => exists_params some readable .byValue
    obtain ⟨rs, returned⟩ := exists_returns given
    obtain ⟨body', us, same, lines⟩ := BlockWellFormed.lines .inside body block
    refine ⟨.define ⟨name, params, returns, body', l⟩, _, ?_, .define "\n" l l l enclosed distinct returned lines⟩
    rw [Stmt.unplaced, Stmt.unplaced, same]
  | _, .call name args l, readable => by
    obtain ⟨ts, enclosed⟩ := exists_enclosed fun some => exists_separated some readable
    exact ⟨_, _, rfl, .one (.call name l l enclosed)⟩
  | _, .giveBack none l, _ => ⟨_, _, rfl, .one (.giveBack l (.inl ⟨rfl, rfl⟩))⟩
  | _, .giveBack (some e) l, readable => by
    obtain ⟨ts, shown⟩ := (readable e rfl).shows
    exact ⟨_, _, rfl, .one (.giveBack l (.inr ⟨e, rfl, shown⟩))⟩
  | _, .openFile file mode l, readable => by
    obtain ⟨ts, shown⟩ := Expr.Readable.shows readable
    exact ⟨_, _, rfl, .one (.openFile mode l l l shown)⟩
  | _, .readFile file target l, ⟨readable, storable⟩ => by
    obtain ⟨ts, shown⟩ := readable.shows
    obtain ⟨t, us, stored, -⟩ := storable.shows
    exact ⟨_, _, rfl, .one (.readFile "," l l shown storable.1 stored)⟩
  | _, .writeFile file value l, ⟨readable, written⟩ => by
    obtain ⟨ts, shown⟩ := readable.shows
    obtain ⟨us, written⟩ := written.shows
    exact ⟨_, _, rfl, .one (.writeFile "," l l shown written)⟩
  | _, .closeFile file l, readable => by
    obtain ⟨ts, shown⟩ := Expr.Readable.shows readable
    exact ⟨_, _, rfl, .one (.closeFile l shown)⟩
  | _, .free pointer l, readable => by
    obtain ⟨ts, shown⟩ := Expr.Readable.shows readable
    exact ⟨_, _, rfl, .one (.free l shown)⟩

theorem Stmt.BlockWellFormed.lines : ∀ (level : Reader.Level) (body : List Stmt), Stmt.BlockWellFormed level body →
    ∃ body' us, Stmt.unplacedBlock body' = Stmt.unplacedBlock body ∧ Lines level body' us
  | _, [], _ => ⟨[], [], rfl, .done⟩
  | level, s :: body, ⟨first, others⟩ => by
    obtain ⟨s', ts, same, line⟩ := WellFormed.line level s first
    obtain ⟨body', us, same', lines⟩ := BlockWellFormed.lines level body others
    refine ⟨[s'] ++ body', _, ?_, .line "\n" .start line lines⟩
    rw [List.singleton_append, Stmt.unplacedBlock, Stmt.unplacedBlock, same, same']

theorem Stmt.OtherWellFormed.else : ∀ other : Option (List Stmt), Stmt.OtherWellFormed other →
    ∃ other' vs, Stmt.unplacedOther other' = Stmt.unplacedOther other ∧ Else other' vs
  | none, _ => ⟨none, [], rfl, .absent⟩
  | some body, block => by
    obtain ⟨body', us, same, lines⟩ := BlockWellFormed.lines .inside body block
    exact ⟨some body', _, congrArg some same, .present .start lines⟩

theorem Stmt.OtherWellFormed.otherwise : ∀ other : Option (List Stmt), Stmt.OtherWellFormed other →
    ∃ other' us, Stmt.unplacedOther other' = Stmt.unplacedOther other ∧ Branches [] other' us
  | none, _ => ⟨none, [], rfl, .done⟩
  | some body, block => by
    obtain ⟨body', us, same, lines⟩ := BlockWellFormed.lines .inside body block
    exact ⟨some body', _, congrArg some same, .otherwise .start .absent lines⟩

theorem Stmt.BranchesWellFormed.branches {other : Option (List Stmt)} {us : List Token} :
    ∀ branches : List (CaseBranch Stmt), Stmt.BranchesWellFormed branches → Branches [] other us →
      ∃ branches' vs, Stmt.unplacedBranches branches' = Stmt.unplacedBranches branches ∧
        Branches branches' other vs
  | [], _, last => ⟨[], us, rfl, last⟩
  | ⟨label, body, l⟩ :: branches, ⟨labelled, block, others⟩, last => by
    obtain ⟨ts, spelled⟩ := labelled.spelled l
    obtain ⟨body', vs, same, lines⟩ := BlockWellFormed.lines .inside body block
    obtain ⟨branches', ws, same', written⟩ := BranchesWellFormed.branches branches others last
    refine ⟨⟨label, body', l⟩ :: branches', _, ?_, .branch ":" l spelled lines written⟩
    rw [Stmt.unplacedBranches, Stmt.unplacedBranches, same, same']

end

end Existence

/-- A program that the grammar provides for: definitions stand at the top and have distinct parameters, there is
something to put out, statements store to what can be stored to, and labels are literals other than NULL. -/
def Program.WellFormed (p : Program) : Prop := Stmt.BlockWellFormed .top p.statements

theorem Program.WellFormed.rendered {p : Program} (h : p.WellFormed) : ∃ ts, p.Rendered ts := by
  obtain ⟨body, us, same, lines⟩ := Stmt.BlockWellFormed.lines .top p.statements h
  exact ⟨us, ⟨body⟩, congrArg Program.mk same, .lines lines⟩

/-- The depth does not depend on the places. -/
theorem depth_le_of_unplaced {body body' : List Stmt} (same : Stmt.unplacedBlock body = Stmt.unplacedBlock body')
    {n : Nat} (fits : ∀ s ∈ body', s.depth ≤ n) : ∀ s ∈ body, s.depth ≤ n := by
  have depth : Stmt.blockDepth body = Stmt.blockDepth body' := by
    rw [← Stmt.blockDepth_unplaced body, same, Stmt.blockDepth_unplaced body']
  have within : Stmt.blockDepth body ≤ n + 1 :=
    depth ▸ Stmt.blockDepth_le.2 ⟨Nat.succ_pos n, fun s mem => Nat.lt_succ_of_le (fits s mem)⟩
  exact fun s mem => Nat.le_of_lt_succ ((Stmt.blockDepth_le.1 within).2 s mem)

/-- A program that is well-formed can be written. However it is written, line by line, with any tokens for its
expressions and types that are read as such, the program that is read from it is the same but for the places, and no
token is left. -/
theorem programs_read_back (p : Program) (fits : ∀ s ∈ p.statements, s.depth ≤ maxNesting) :
    (p.WellFormed → ∃ ts, p.Rendered ts) ∧
      ∀ ts, p.Rendered ts → ∃ q : Program, q.unplaced = p.unplaced ∧
        (∀ finish, (⟨ts, finish⟩ : TokenStream).read Reader.program = .ok (q, [])) ∧
        ∀ us, (TokenStream.ofTokens us).tokens = ts → Program.ofTokens us = .ok q := by
  refine ⟨Program.WellFormed.rendered, ?_⟩
  rintro ts ⟨q, same, written⟩
  have read := written.read (depth_le_of_unplaced (congrArg Program.statements same) fits)
  refine ⟨q, same, read, ?_⟩
  rintro us rfl
  have all : (TokenStream.ofTokens us).read Reader.program = .ok (q, []) := read _
  rw [Program.ofTokens_eq, all]
  rfl

/-- An IF statement without ELSE around one whose ELSE is empty. -/
def emptyElse : Program :=
  ⟨[.ifThen (.literal (.boolean true) .none)
    [.ifThen (.literal (.boolean false) .none) [] (some []) .none] none .none]⟩

/-- ELSE belongs to the inner statement. -/
theorem emptyElse_read_back : (∃ ts, emptyElse.Rendered ts) ∧ ∃ q : Program, q.unplaced = emptyElse.unplaced ∧
    Program.ofTokens
      [⟨.keyword, "IF", ⟨1, 1⟩⟩, ⟨.keyword, "TRUE", ⟨1, 4⟩⟩, ⟨.keyword, "THEN", ⟨1, 9⟩⟩, ⟨.newline, "\n", ⟨1, 13⟩⟩,
        ⟨.keyword, "IF", ⟨2, 1⟩⟩, ⟨.keyword, "FALSE", ⟨2, 4⟩⟩, ⟨.newline, "\n", ⟨2, 9⟩⟩,
        ⟨.keyword, "ELSE", ⟨3, 1⟩⟩, ⟨.newline, "\n", ⟨3, 5⟩⟩, ⟨.keyword, "ENDIF", ⟨4, 1⟩⟩, ⟨.newline, "\n", ⟨4, 6⟩⟩,
        ⟨.keyword, "ENDIF", ⟨5, 1⟩⟩] = .ok q := by
  have shallow : ∀ s ∈ emptyElse.statements, s.depth ≤ maxNesting := by decide
  have readable (b : Bool) : (Expr.literal (.boolean b) .none).Readable := ⟨trivial, (by decide : 0 < maxNesting)⟩
  have wellFormed : emptyElse.WellFormed :=
    ⟨⟨readable true, ⟨⟨readable false, trivial, trivial⟩, trivial⟩, trivial⟩, trivial⟩
  have first : Shows expression (.literal (.boolean true) ⟨1, 4⟩) [⟨.keyword, "TRUE", ⟨1, 4⟩⟩] := ⟨.none, rfl⟩
  have second : Shows expression (.literal (.boolean false) ⟨2, 4⟩) [⟨.keyword, "FALSE", ⟨2, 4⟩⟩] := ⟨.none, rfl⟩
  have noGap : Blank [] := nofun
  have inner : Line .inside _ _ :=
    .ifThen ⟨2, 1⟩ ⟨4, 1⟩ second (.line "\n" ⟨2, 9⟩) .done (.present ⟨3, 1⟩ (.blank "\n" ⟨3, 5⟩ .done))
  have outer : Line .top _ _ :=
    .ifThen ⟨1, 1⟩ ⟨5, 1⟩ first (.word ⟨1, 9⟩ noGap) (.blank "\n" ⟨1, 13⟩ (.line "\n" ⟨4, 6⟩ inner .done)) .absent
  have same : Program.unplaced ⟨[.ifThen (.literal (.boolean true) ⟨1, 4⟩)
      [.ifThen (.literal (.boolean false) ⟨2, 4⟩) [] (some []) ⟨2, 1⟩] none ⟨1, 1⟩]⟩ = emptyElse.unplaced := rfl
  obtain ⟨q, alike, -, read⟩ := (programs_read_back emptyElse shallow).2 _ ⟨_, same, .unended .done outer⟩
  exact ⟨(programs_read_back emptyElse shallow).1 wellFormed, q, alike, read _ rfl⟩

/-- A name in parentheses is read as what a statement can store to, but no statement starts so. -/
theorem enclosed_target_refused :
    Shows (unary outermost) (.identifier "x" ⟨1, 2⟩)
        [⟨.leftParen, "(", ⟨1, 1⟩⟩, ⟨.identifier, "x", ⟨1, 2⟩⟩, ⟨.rightParen, ")", ⟨1, 3⟩⟩] ∧
      Shows expression (.literal (.boolean true) ⟨1, 7⟩) [⟨.keyword, "TRUE", ⟨1, 7⟩⟩] ∧
      Program.ofTokens
          [⟨.leftParen, "(", ⟨1, 1⟩⟩, ⟨.identifier, "x", ⟨1, 2⟩⟩, ⟨.rightParen, ")", ⟨1, 3⟩⟩, ⟨.assign, "←", ⟨1, 5⟩⟩,
            ⟨.keyword, "TRUE", ⟨1, 7⟩⟩] =
        .error ⟨.tokenAtStart "'('", ⟨1, 1⟩⟩ :=
  ⟨⟨.none, rfl⟩, ⟨.none, rfl⟩, (Program.ofTokens_eq _).trans rfl⟩

end Pseudocode
