import Pseudocode.Syntax.Reader.Expr

/-!
How expressions are written. A table gives every expression its level, from OR, which is loosest, to
primaries; an operand that is looser than its place allows stands in parentheses, and nothing else does
(`Expr.Spelled`). Every node stands where its first token stands, and a binary operator where its operator
does. All expressions can be written but those that no text gives: elements without an index, arrays of
arrays and bounds that are no literal (`Expr.Writable.spelled`).
-/

namespace Pseudocode

/-- The levels of expressions, from loosest to tightest. -/
inductive Level where
  | disjunction
  | conjunction
  | negation
  | comparison
  | sum
  | product
  | unary
  | primary
deriving DecidableEq, Repr

namespace Level

def rank : Level → Nat
  | .disjunction => 0
  | .conjunction => 1
  | .negation => 2
  | .comparison => 3
  | .sum => 4
  | .product => 5
  | .unary => 6
  | .primary => 7

instance : LE Level := ⟨fun a b => a.rank ≤ b.rank⟩

instance : LT Level := ⟨fun a b => a.rank < b.rank⟩

instance (a b : Level) : Decidable (a ≤ b) := inferInstanceAs (Decidable (a.rank ≤ b.rank))

instance (a b : Level) : Decidable (a < b) := inferInstanceAs (Decidable (a.rank < b.rank))

theorem le_def {a b : Level} : a ≤ b ↔ a.rank ≤ b.rank := Iff.rfl

/-- The next level. -/
def tighter : Level → Level
  | .disjunction => .conjunction
  | .conjunction => .negation
  | .negation => .comparison
  | .comparison => .sum
  | .sum => .product
  | .product => .unary
  | .unary => .primary
  | .primary => .primary

theorem rank_injective {a b : Level} (same : a.rank = b.rank) : a = b := by
  revert same
  cases a <;> cases b <;> decide

theorem le_primary (a : Level) : a ≤ .primary := by
  cases a <;> decide

theorem rank_tighter {a : Level} (looser : a ≠ .primary) : a.tighter.rank = a.rank + 1 := by
  cases a <;> first | rfl | contradiction

end Level

namespace BinaryOperator

def level : BinaryOperator → Level
  | .or => .disjunction
  | .and => .conjunction
  | .eq | .ne | .lt | .le | .gt | .ge => .comparison
  | .add | .sub | .concat => .sum
  | .mul | .div | .intDiv | .mod => .product

/-- Operators group to the left, but comparisons do not chain. -/
def leftLevel (op : BinaryOperator) : Level :=
  if op.level = .comparison then .sum else op.level

def rightLevel (op : BinaryOperator) : Level := op.level.tighter

theorem level_le_leftLevel (op : BinaryOperator) : op.level ≤ op.leftLevel := by
  cases op <;> decide

def isWord : BinaryOperator → Bool
  | .intDiv | .mod | .and | .or => true
  | _ => false

/-- An operator between its operands. -/
def token (op : BinaryOperator) (l : Location) : Token :=
  ⟨if op.isWord then .keyword else .operator, op.symbol, l⟩

theorem kind_token (op : BinaryOperator) (l : Location) :
    (op.token l).kind = .keyword ∨ (op.token l).kind = .operator := by
  unfold token
  cases op.isWord with
  | true => exact .inl rfl
  | false => exact .inr rfl

theorem token_injective {op op' : BinaryOperator} {l l' : Location} (same : op.token l = op'.token l') :
    op = op' := by
  have text : op.symbol = op'.symbol := congrArg Token.text same
  revert text
  cases op <;> cases op' <;> decide

end BinaryOperator

/-- What may stand behind a complete expression and go on with it: an operator, or a bracket behind a
name. -/
def Token.Continues (t : Token) : Prop :=
  t.kind = .leftParen ∨ t.kind = .leftBracket ∨ ∃ op : BinaryOperator, t = op.token t.location

/-- Items with commas between them. -/
inductive Separated {α : Type} (Item : α → List Token → Prop) : List α → List Token → Prop
  | one {a : α} {ts : List Token} : Item a ts → Separated Item [a] ts
  | more {a : α} {as : List α} {ts us : List Token} (comma : String) (l : Location) :
    Item a ts → Separated Item as us → Separated Item (a :: as) (ts ++ ⟨.comma, comma, l⟩ :: us)

variable {ts : List Token} {α : Type} {as : List α} {Item : α → List Token → Prop}

theorem Separated.mono {Item' : α → List Token → Prop} (h : Separated Item as ts)
    (weaker : ∀ a ts, Item a ts → Item' a ts) : Separated Item' as ts := by
  induction h with
  | one item => exact .one (weaker _ _ item)
  | more comma l item _ ih => exact .more comma l (weaker _ _ item) ih

theorem Separated.forall_exists (h : Separated Item as ts) : ∀ a ∈ as, ∃ ts, Item a ts := by
  induction h with
  | one item => exact List.forall_mem_singleton.2 ⟨_, item⟩
  | more comma l item _ ih => exact List.forall_mem_cons.2 ⟨⟨_, item⟩, ih⟩

theorem Separated.exists_of_forall (l : Location) (nonempty : as ≠ []) (h : ∀ a ∈ as, ∃ ts, Item a ts) :
    ∃ ts, Separated Item as ts := by
  induction as with
  | nil => contradiction
  | cons a as ih =>
    obtain ⟨ts, item⟩ := h a List.mem_cons_self
    cases as with
    | nil => exact ⟨ts, .one item⟩
    | cons b bs =>
      obtain ⟨us, items⟩ := ih nofun fun c mem => h c (List.mem_cons_of_mem a mem)
      exact ⟨_, .more "," l item items⟩

/-- One end of a dimension. -/
inductive Bounds.End : Int → List Token → Prop
  | plain {n : Float} (text : String) (l : Location) :
    Number.isWhole n = true → Bounds.End (Number.toInt64 n) [⟨.number n, text, l⟩]
  | negated {n : Float} (text : String) (sign l : Location) :
    Number.isWhole n = true →
      Bounds.End (Number.negate64 (Number.toInt64 n)) [⟨.operator, "-", sign⟩, ⟨.number n, text, l⟩]

/-- A number that can be written as the end of a dimension. -/
def Bounds.Literal (k : Int) : Prop :=
  ∃ n : Float, Number.isWhole n = true ∧ (Number.toInt64 n = k ∨ Number.negate64 (Number.toInt64 n) = k)

theorem Bounds.Literal.spelled {k : Int} (h : Bounds.Literal k) (l : Location) : ∃ ts, Bounds.End k ts := by
  obtain ⟨n, whole, rfl | rfl⟩ := h
  · exact ⟨_, .plain "" l whole⟩
  · exact ⟨_, .negated "" l l whole⟩

theorem Bounds.End.literal {k : Int} (h : Bounds.End k ts) : Bounds.Literal k := by
  cases h with
  | plain text l whole => exact ⟨_, whole, .inl rfl⟩
  | negated text sign l whole => exact ⟨_, whole, .inr rfl⟩

inductive Bounds.Spelled : Bounds → List Token → Prop
  | between {lower upper : Int} {ts us : List Token} (colon : String) (l : Location) :
    Bounds.End lower ts → Bounds.End upper us → Bounds.Spelled ⟨lower, upper⟩ (ts ++ ⟨.colon, colon, l⟩ :: us)

/-- The bounds of an array, which may be left out. -/
inductive Bounds.Bracketed : List Bounds → List Token → Prop
  | none : Bounds.Bracketed [] []
  | some {dims : List Bounds} {ts : List Token} (opening closing : String) (l r : Location) :
    Separated Bounds.Spelled dims ts →
      Bounds.Bracketed dims (⟨.leftBracket, opening, l⟩ :: ts ++ [⟨.rightBracket, closing, r⟩])

theorem Bounds.Bracketed.literal {dims : List Bounds} (h : Bounds.Bracketed dims ts) :
    ∀ b ∈ dims, Bounds.Literal b.lower ∧ Bounds.Literal b.upper := by
  cases h with
  | none => nofun
  | some opening closing l r separated =>
    intro b mem
    obtain ⟨_, ⟨colon, c, lower, upper⟩⟩ := separated.forall_exists b mem
    exact ⟨lower.literal, upper.literal⟩

theorem Bounds.exists_bracketed {dims : List Bounds} (l : Location)
    (h : ∀ b ∈ dims, Bounds.Literal b.lower ∧ Bounds.Literal b.upper) : ∃ ts, Bounds.Bracketed dims ts := by
  by_cases empty : dims = []
  · exact ⟨[], empty ▸ .none⟩
  · have items : ∀ b ∈ dims, ∃ ts, Bounds.Spelled b ts := by
      intro b mem
      obtain ⟨ts, lower⟩ := (h b mem).1.spelled l
      obtain ⟨us, upper⟩ := (h b mem).2.spelled l
      exact ⟨_, .between ":" l lower upper⟩
    obtain ⟨ts, separated⟩ := Separated.exists_of_forall l empty items
    exact ⟨_, .some "[" "]" l l separated⟩

namespace DataType

/-- Pointer types may be written in two ways. -/
inductive Spelled : DataType → List Token → Prop
  | scalar {word : String} {type : DataType} (l : Location) :
    ofKeyword? word = some type → Spelled type [⟨.keyword, word, l⟩]
  | array {dims : List Bounds} {element : DataType} {ts us : List Token} (l r : Location) :
    Bounds.Bracketed dims ts → element.isArray = false → Spelled element us →
      Spelled (.array dims element) (⟨.keyword, "ARRAY", l⟩ :: ts ++ ⟨.keyword, "OF", r⟩ :: us)
  | pointer {target : DataType} {ts : List Token} (l r : Location) :
    Spelled target ts → Spelled (.pointer target) (⟨.keyword, "POINTER", l⟩ :: ⟨.keyword, "TO", r⟩ :: ts)
  | caret {target : DataType} {ts : List Token} (l : Location) :
    Spelled target ts → Spelled (.pointer target) (⟨.operator, "^", l⟩ :: ts)

/-- A type that can be written. -/
def Writable : DataType → Prop
  | .array dims element =>
    (∀ b ∈ dims, Bounds.Literal b.lower ∧ Bounds.Literal b.upper) ∧ element.isArray = false ∧ element.Writable
  | .pointer target => target.Writable
  | .integer | .real | .string | .char | .boolean => True

variable {type : DataType}

theorem Writable.spelled (h : type.Writable) (l : Location) : ∃ ts, type.Spelled ts := by
  induction type with
  | integer => exact ⟨[⟨.keyword, "INTEGER", l⟩], .scalar l rfl⟩
  | real => exact ⟨[⟨.keyword, "REAL", l⟩], .scalar l rfl⟩
  | string => exact ⟨[⟨.keyword, "STRING", l⟩], .scalar l rfl⟩
  | char => exact ⟨[⟨.keyword, "CHAR", l⟩], .scalar l rfl⟩
  | boolean => exact ⟨[⟨.keyword, "BOOLEAN", l⟩], .scalar l rfl⟩
  | array dims element ih =>
    obtain ⟨bounds, flat, writable⟩ := h
    obtain ⟨ts, bracketed⟩ := Bounds.exists_bracketed l bounds
    obtain ⟨us, spelled⟩ := ih writable
    exact ⟨_, .array l l bracketed flat spelled⟩
  | pointer target ih =>
    obtain ⟨ts, spelled⟩ := ih h
    exact ⟨_, .pointer l l spelled⟩

theorem writable_of_ofKeyword {word : String} (h : ofKeyword? word = some type) : type.Writable := by
  unfold ofKeyword? at h
  split at h <;> cases h <;> trivial

theorem Spelled.writable {ts : List Token} (h : type.Spelled ts) : type.Writable := by
  induction h with
  | scalar l word => exact writable_of_ofKeyword word
  | array l r bracketed flat _ ih => exact ⟨bracketed.literal, flat, ih⟩
  | pointer l r _ ih => exact ih
  | caret l _ ih => exact ih

/-- How deep types are nested in a type. -/
def depth : DataType → Nat
  | .array _ element => element.depth + 1
  | .pointer target => target.depth + 1
  | _ => 0

end DataType

inductive Literal.Spelled : Literal → TokenKind → String → Prop
  | number (n : Float) (text : String) : Spelled (.number n) (.number n) text
  | string (text : String) : Spelled (.string text) .string text
  | char (text : String) : Spelled (.char (Reader.literalChar text)) .char text
  | true : Spelled (.boolean true) .keyword "TRUE"
  | false : Spelled (.boolean false) .keyword "FALSE"
  | null : Spelled .null .keyword "NULL"

theorem Literal.exists_spelled (v : Literal) : ∃ kind text, v.Spelled kind text := by
  cases v with
  | number n => exact ⟨_, "", .number n ""⟩
  | string text => exact ⟨_, _, .string text⟩
  | char c =>
    have same : Reader.literalChar (String.singleton c) = c := by simp [Reader.literalChar]
    have written := Literal.Spelled.char (String.singleton c)
    rw [same] at written
    exact ⟨_, _, written⟩
  | boolean b => cases b with
    | true => exact ⟨_, _, .true⟩
    | false => exact ⟨_, _, .false⟩
  | null => exact ⟨_, _, .null⟩

namespace Expr

def level : Expr → Level
  | .binary op .. => op.level
  | .unary .not .. => .negation
  | .unary .negate .. | .addressOf .. | .dereference .. => .unary
  | .literal .. | .identifier .. | .element .. | .call .. => .primary
  | .allocate .. | .sizeOf .. | .endOfFile .. => .primary

mutual

/-- An expression, without parentheses around it. -/
inductive Bare : Expr → List Token → Prop
  | literal {v : Literal} {kind : TokenKind} {text : String} (l : Location) :
    v.Spelled kind text → Bare (.literal v l) [⟨kind, text, l⟩]
  | identifier (name : String) (l : Location) : Bare (.identifier name l) [⟨.identifier, name, l⟩]
  | element {indices : List Expr} {ts : List Token} (name opening closing : String) (l a b : Location) :
    Items indices ts →
      Bare (.element name indices l)
        (⟨.identifier, name, l⟩ :: ⟨.leftBracket, opening, a⟩ :: ts ++ [⟨.rightBracket, closing, b⟩])
  | callNone (name opening closing : String) (l a b : Location) :
    Bare (.call name [] l) [⟨.identifier, name, l⟩, ⟨.leftParen, opening, a⟩, ⟨.rightParen, closing, b⟩]
  | call {args : List Expr} {ts : List Token} (name opening closing : String) (l a b : Location) :
    Items args ts →
      Bare (.call name args l)
        (⟨.identifier, name, l⟩ :: ⟨.leftParen, opening, a⟩ :: ts ++ [⟨.rightParen, closing, b⟩])
  | allocate {size : Expr} {ts : List Token} (opening closing : String) (l a b : Location) :
    Spelled .disjunction size ts →
      Bare (.allocate size none l)
        (⟨.keyword, "MALLOC", l⟩ :: ⟨.leftParen, opening, a⟩ :: ts ++ [⟨.rightParen, closing, b⟩])
  | allocateTagged {size : Expr} {tag : DataType} {ts us : List Token} (opening comma closing : String)
      (l a b c : Location) :
    Spelled .disjunction size ts → tag.Spelled us →
      Bare (.allocate size (some tag) l)
        (⟨.keyword, "MALLOC", l⟩ :: ⟨.leftParen, opening, a⟩ ::
          ts ++ ⟨.comma, comma, b⟩ :: us ++ [⟨.rightParen, closing, c⟩])
  | sizeOf {type : DataType} {ts : List Token} (opening closing : String) (l a b : Location) :
    type.Spelled ts →
      Bare (.sizeOf type l)
        (⟨.keyword, "SIZE_OF", l⟩ :: ⟨.leftParen, opening, a⟩ :: ts ++ [⟨.rightParen, closing, b⟩])
  | endOfFile {file : Expr} {ts : List Token} (opening closing : String) (l a b : Location) :
    Spelled .disjunction file ts →
      Bare (.endOfFile file l)
        (⟨.keyword, "EOF", l⟩ :: ⟨.leftParen, opening, a⟩ :: ts ++ [⟨.rightParen, closing, b⟩])
  | negate {operand : Expr} {ts : List Token} (l : Location) :
    Spelled .unary operand ts → Bare (.unary .negate operand l) (⟨.operator, "-", l⟩ :: ts)
  | addressOf {operand : Expr} {ts : List Token} (l : Location) :
    Spelled .unary operand ts → Bare (.addressOf operand l) (⟨.operator, "&", l⟩ :: ts)
  | dereference {operand : Expr} {ts : List Token} (l : Location) :
    Spelled .unary operand ts → Bare (.dereference operand l) (⟨.operator, "*", l⟩ :: ts)
  | not {operand : Expr} {ts : List Token} (l : Location) :
    Spelled .negation operand ts → Bare (.unary .not operand l) (⟨.keyword, "NOT", l⟩ :: ts)
  | binary {left right : Expr} {ts us : List Token} (op : BinaryOperator) (l : Location) :
    Spelled op.leftLevel left ts → Spelled op.rightLevel right us →
      Bare (.binary op left right l) (ts ++ op.token l :: us)

/-- An expression where a level is due. Parentheses stand around it if it is looser, and only then. -/
inductive Spelled : Level → Expr → List Token → Prop
  | bare {level : Level} {e : Expr} {ts : List Token} : level ≤ e.level → Bare e ts → Spelled level e ts
  | enclosed {level : Level} {e : Expr} {ts : List Token} (opening closing : String) (l r : Location) :
    ¬ level ≤ e.level → Spelled .disjunction e ts →
      Spelled level e (⟨.leftParen, opening, l⟩ :: ts ++ [⟨.rightParen, closing, r⟩])

/-- Expressions with commas between them. -/
inductive Items : List Expr → List Token → Prop
  | one {e : Expr} {ts : List Token} : Spelled .disjunction e ts → Items [e] ts
  | more {e : Expr} {es : List Expr} {ts us : List Token} (comma : String) (l : Location) :
    Spelled .disjunction e ts → Items es us → Items (e :: es) (ts ++ ⟨.comma, comma, l⟩ :: us)

end

mutual

/-- An expression that can be written: elements have an index, and so do its types. -/
def Writable : Expr → Prop
  | .literal .. | .identifier .. => True
  | .element _ indices _ => indices ≠ [] ∧ AllWritable indices
  | .call _ args _ => AllWritable args
  | .binary _ left right _ => left.Writable ∧ right.Writable
  | .unary _ operand _ | .addressOf operand _ | .dereference operand _ => operand.Writable
  | .allocate size none _ => size.Writable
  | .allocate size (some tag) _ => size.Writable ∧ tag.Writable
  | .sizeOf type _ => type.Writable
  | .endOfFile file _ => file.Writable

def AllWritable : List Expr → Prop
  | [] => True
  | e :: es => e.Writable ∧ AllWritable es

end

/-- What can be written can be written in every place. -/
theorem Bare.exists_spelled {e : Expr} {ts : List Token} (h : Bare e ts) (level : Level) (l : Location) :
    ∃ us, Spelled level e us := by
  by_cases looser : level ≤ e.level
  · exact ⟨_, .bare looser h⟩
  · exact ⟨_, .enclosed "(" ")" l l looser (.bare (Nat.zero_le _) h)⟩

mutual

theorem Writable.bare : ∀ e : Expr, e.Writable → ∃ ts, Bare e ts
  | .literal v l, _ => by
    obtain ⟨_, _, spelled⟩ := v.exists_spelled
    exact ⟨_, .literal l spelled⟩
  | .identifier name l, _ => ⟨_, .identifier name l⟩
  | .element name indices l, ⟨indexed, writable⟩ => by
    obtain ⟨_, items⟩ := AllWritable.items indices l indexed writable
    exact ⟨_, .element name "[" "]" l l l items⟩
  | .call name [] l, _ => ⟨_, .callNone name "(" ")" l l l⟩
  | .call name (arg :: args) l, writable => by
    obtain ⟨_, items⟩ := AllWritable.items (arg :: args) l nofun writable
    exact ⟨_, .call name "(" ")" l l l items⟩
  | .binary op left right l, ⟨first, second⟩ => by
    obtain ⟨_, left⟩ := Writable.spelled left first op.leftLevel l
    obtain ⟨_, right⟩ := Writable.spelled right second op.rightLevel l
    exact ⟨_, .binary op l left right⟩
  | .unary .not operand l, writable => by
    obtain ⟨_, spelled⟩ := Writable.spelled operand writable .negation l
    exact ⟨_, .not l spelled⟩
  | .unary .negate operand l, writable => by
    obtain ⟨_, spelled⟩ := Writable.spelled operand writable .unary l
    exact ⟨_, .negate l spelled⟩
  | .addressOf operand l, writable => by
    obtain ⟨_, spelled⟩ := Writable.spelled operand writable .unary l
    exact ⟨_, .addressOf l spelled⟩
  | .dereference operand l, writable => by
    obtain ⟨_, spelled⟩ := Writable.spelled operand writable .unary l
    exact ⟨_, .dereference l spelled⟩
  | .allocate size none l, writable => by
    obtain ⟨_, spelled⟩ := Writable.spelled size writable .disjunction l
    exact ⟨_, .allocate "(" ")" l l l spelled⟩
  | .allocate size (some tag) l, ⟨writable, typed⟩ => by
    obtain ⟨_, spelled⟩ := Writable.spelled size writable .disjunction l
    obtain ⟨_, tag⟩ := typed.spelled l
    exact ⟨_, .allocateTagged "(" "," ")" l l l l spelled tag⟩
  | .sizeOf type l, writable => by
    obtain ⟨_, spelled⟩ := DataType.Writable.spelled writable l
    exact ⟨_, .sizeOf "(" ")" l l l spelled⟩
  | .endOfFile file l, writable => by
    obtain ⟨_, spelled⟩ := Writable.spelled file writable .disjunction l
    exact ⟨_, .endOfFile "(" ")" l l l spelled⟩

theorem Writable.spelled (e : Expr) (h : e.Writable) (level : Level) (l : Location) :
    ∃ ts, Spelled level e ts := by
  obtain ⟨_, bare⟩ := Writable.bare e h
  exact bare.exists_spelled level l

theorem AllWritable.items : ∀ es : List Expr, Location → es ≠ [] → AllWritable es → ∃ ts, Items es ts
  | [], _, nonempty, _ => absurd rfl nonempty
  | [e], l, _, ⟨first, _⟩ => by
    obtain ⟨_, spelled⟩ := Writable.spelled e first .disjunction l
    exact ⟨_, .one spelled⟩
  | e :: e' :: es, l, _, ⟨first, others⟩ => by
    obtain ⟨_, spelled⟩ := Writable.spelled e first .disjunction l
    obtain ⟨_, items⟩ := AllWritable.items (e' :: es) l nofun others
    exact ⟨_, .more "," l spelled items⟩

end

theorem Items.ne_nil {es : List Expr} {ts : List Token} (h : Items es ts) : es ≠ [] := by
  cases h <;> nofun

mutual

theorem Bare.writable {e : Expr} {ts : List Token} : Bare e ts → e.Writable
  | .literal .. | .identifier .. => trivial
  | .element _ _ _ _ _ _ items => ⟨items.ne_nil, items.writable⟩
  | .callNone .. => trivial
  | .call _ _ _ _ _ _ items => items.writable
  | .allocate _ _ _ _ _ size => size.writable
  | .allocateTagged _ _ _ _ _ _ _ size tag => ⟨size.writable, tag.writable⟩
  | .sizeOf _ _ _ _ _ type => type.writable
  | .endOfFile _ _ _ _ _ file => file.writable
  | .negate _ operand | .addressOf _ operand | .dereference _ operand | .not _ operand => operand.writable
  | .binary _ _ left right => ⟨left.writable, right.writable⟩

theorem Spelled.writable {level : Level} {e : Expr} {ts : List Token} : Spelled level e ts → e.Writable
  | .bare _ bare => bare.writable
  | .enclosed _ _ _ _ _ spelled => spelled.writable

theorem Items.writable {es : List Expr} {ts : List Token} : Items es ts → AllWritable es
  | .one spelled => ⟨spelled.writable, trivial⟩
  | .more _ _ spelled items => ⟨spelled.writable, items.writable⟩

end

/-- The depth where a level is due, given the depth without parentheses. -/
def enclosedDepth (due own : Level) (depth : Nat) : Nat := if due ≤ own then depth else depth + 1

mutual

/-- How many levels of nesting an expression needs inside of its own. Parentheses, the operands of
operators that stand before them, indices, arguments and the parts of types count as one each; operands
of binary operators do not. -/
def depth : Expr → Nat
  | .literal .. | .identifier .. => 0
  | .element _ indices _ => deepest indices
  | .call _ args _ => deepest args
  | .binary op left right _ =>
    max (enclosedDepth op.leftLevel left.level left.depth)
      (enclosedDepth op.rightLevel right.level right.depth)
  | .unary .not operand _ => enclosedDepth .negation operand.level operand.depth + 1
  | .unary .negate operand _ | .addressOf operand _ | .dereference operand _ =>
    enclosedDepth .unary operand.level operand.depth + 1
  | .allocate size none _ => size.depth + 1
  | .allocate size (some tag) _ => max (size.depth + 1) tag.depth
  | .sizeOf type _ => type.depth
  | .endOfFile file _ => file.depth + 1

def deepest : List Expr → Nat
  | [] => 0
  | e :: es => max (e.depth + 1) (deepest es)

end

/-- The depth of an expression where a level is due. -/
def depthAt (due : Level) (e : Expr) : Nat := enclosedDepth due e.level e.depth

end Expr

end Pseudocode
