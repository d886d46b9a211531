import Pseudocode.Proofs.Layout.Readers
import Pseudocode.Proofs.Lexing.Lines
import Pseudocode.Proofs.Numbers.Whole

/-!
The text of a type is a type clause for it (`DataType.render_reads_back`). The text is put together from words,
numbers and marks, and each part is read by itself where what follows cannot belong to it (`Apart`); so the
tokens of the whole are those of its parts (`Displays`).
-/

namespace Pseudocode

open Lexeme

/-- What starts here does not go on with a word or a number that stands before it. -/
def Apart (cs : List Char) : Prop := ∀ c, cs.head? = some c → continuesWord c = false ∧ c ≠ '.'

/-- Wherever `cs` stands before a text that is apart, it is read as tokens with a property, none of which is a
comment. -/
def Displays (S : List Token → Prop) (cs : List Char) : Prop :=
  ∀ p rest, Apart rest → ∃ ts, S ts ∧ (∀ t ∈ ts, t.kind ≠ .comment) ∧
    tokensAt p (cs ++ rest) = (ts ++ ·) <$> tokensAt (p.after cs) rest

/-- One token, wherever it stands. -/
def Single (kind : TokenKind) (text : String) (ts : List Token) : Prop := ∃ l, ts = [⟨kind, text, l⟩]

/-- Tokens of one property, then tokens of another. -/
def Consecutive (S T : List Token → Prop) (ts : List Token) : Prop := ∃ us vs, S us ∧ T vs ∧ ts = us ++ vs

variable {S T : List Token → Prop} {cs ds rest tail : List Char} {c : Char} {x : Lexeme} {p : Location}

section Tokens

theorem tokensAt_blank (blank : isGap c = true) (p : Location) (cs : List Char) :
    tokensAt p (c :: cs) = tokensAt (p.past c) cs := by
  have longer {gap : List Char} (all : ∀ d ∈ gap, isGap d = true) : ∀ d ∈ c :: gap, isGap d = true :=
    List.forall_mem_cons.2 ⟨blank, all⟩
  induction cs using lexing_induction with
  | blank gap all =>
    rw [tokensAt_gap (longer all), tokensAt_gap all]
    rfl
  | refused gap d rest complaint all dark failed =>
    rw [← List.cons_append, tokensAt_refused (longer all) dark failed, tokensAt_refused all dark failed]
    rfl
  | lexeme gap d rest x tail all dark found _ =>
    rw [← List.cons_append, tokensAt_lexeme (longer all) dark found, tokensAt_lexeme all dark found]
    rfl

theorem tokensAt_read (found : read c rest = .ok (x, tail)) (p : Location) :
    tokensAt p (c :: rest) = ([⟨x.kind, x.text, p⟩] ++ ·) <$> tokensAt (p.after x.raw) tail := by
  have dark : isGap c = false := by
    cases blank : isGap c with
    | false => rfl
    | true =>
      rw [read_gap blank] at found
      cases found
  exact tokensAt_lexeme (show ∀ d ∈ [], isGap d = true from nofun) dark found

theorem read_digits (all : ∀ d ∈ c :: cs, d.isDigit = true) (apart : Apart rest) :
    read c (cs ++ rest) = .ok (symbol (.number (Number.ofDigits (c :: cs) 0)) (c :: cs), rest) := by
  have digit := all c List.mem_cons_self
  have ends : ∀ d, rest.head? = some d → d.isDigit = false := by
    intro d here
    have outside := (apart d here).1
    simp only [continuesWord, Char.isAlphanum, Bool.or_eq_false_iff] at outside
    exact outside.1.2
  have noPoint (d : Char) (behind : List Char) (same : rest = '.' :: d :: behind) : d.isDigit = false :=
    absurd rfl (apart '.' (by rw [same]; rfl)).2
  have plain (mark : Char) (behind : List Char) (same : c :: cs ++ rest = '0' :: mark :: behind) :
      mark ≠ 'x' ∧ mark ≠ 'X' := by
    cases cs with
    | nil =>
      have outside := (apart mark (congrArg List.head? (List.cons.inj same).2)).1
      constructor <;> rintro rfl <;> cases outside
    | cons d ds =>
      obtain rfl : d = mark := (List.cons.inj (List.cons.inj same).2).1
      exact ne_mark_of_isDigit (all d (by simp))
  rw [read_number digit, ← List.cons_append, number_decimal plain, decimal_whole all ends noPoint]

/-- Reserved words are words. -/
theorem keyword_letters {word : String} (reserved : word ∈ keywords) :
    ∃ c cs, word = String.ofList (c :: cs) ∧ startsWord c = true ∧ ∀ d ∈ cs, continuesWord d = true := by
  have all : ∀ w ∈ keywords, (w.toList.head?.any startsWord && w.toList.tail.all continuesWord) = true := by
    decide +kernel
  have here := all word reserved
  cases letters : word.toList with
  | nil =>
    rw [letters] at here
    cases here
  | cons c cs =>
    rw [letters, Bool.and_eq_true, List.all_eq_true] at here
    exact ⟨c, cs, by rw [← letters, String.ofList_toList], here⟩

theorem map_append_map (ts us : List Token) (r : Except SyntaxError (List Token)) :
    (ts ++ ·) <$> (us ++ ·) <$> r = ((ts ++ us) ++ ·) <$> r := by
  cases r with
  | error e => rfl
  | ok vs => exact congrArg Except.ok (List.append_assoc ts us vs).symm

end Tokens

namespace Displays

theorem mono (h : Displays S cs) (weaker : ∀ ts, S ts → T ts) : Displays T cs := by
  intro p rest apart
  obtain ⟨ts, shown, read⟩ := h p rest apart
  exact ⟨ts, weaker ts shown, read⟩

theorem nothing : Displays (· = []) [] := fun p rest _ => ⟨[], rfl, nofun, (id_map (tokensAt p rest)).symm⟩

theorem blank (h : Displays S cs) : Displays S (' ' :: cs) := by
  intro p rest apart
  obtain ⟨ts, shown, code, read⟩ := h (p.past ' ') rest apart
  exact ⟨ts, shown, code, (tokensAt_blank rfl p _).trans read⟩

/-- Two parts, the second of which is apart from the first. -/
theorem join (first : Displays S cs) (second : Displays T (c :: ds))
    (apart : continuesWord c = false ∧ c ≠ '.') : Displays (Consecutive S T) (cs ++ c :: ds) := by
  intro p rest ends
  obtain ⟨ts, shown, code, read⟩ := first p (c :: ds ++ rest) fun d here => Option.some.inj here ▸ apart
  obtain ⟨us, shown', code', read'⟩ := second (p.after cs) rest ends
  refine ⟨ts ++ us, ⟨ts, us, shown, shown', rfl⟩, List.forall_mem_append.2 ⟨code, code'⟩, ?_⟩
  rw [List.append_assoc, read, read', map_append_map, Location.after_append]

/-- A mark is read whatever follows it. -/
theorem mark {kind : TokenKind} (alone : ∀ rest, read c rest = .ok (symbol kind [c], rest)) (h : Displays S cs)
    (other : kind ≠ .comment) : Displays (Consecutive (Single kind (String.ofList [c])) S) (c :: cs) := by
  intro p rest apart
  obtain ⟨ts, shown, code, read⟩ := h (p.past c) rest apart
  refine ⟨_ :: ts, ⟨[_], ts, ⟨p, rfl⟩, shown, rfl⟩, List.forall_mem_cons.2 ⟨other, code⟩, ?_⟩
  rw [List.cons_append, tokensAt_read (alone _)]
  show _ <$> tokensAt (p.past c) _ = _
  rw [read, map_append_map]
  rfl

theorem keyword {word : String} (reserved : word ∈ keywords) : Displays (Single .keyword word) word.toList := by
  intro p rest apart
  have ends : ∀ d, rest.head? = some d → continuesWord d = false := fun d here => (apart d here).1
  obtain ⟨c, cs, rfl, letter, inside⟩ := keyword_letters reserved
  have found : read c (cs ++ rest) = .ok (word (c :: cs), rest) := by
    rw [read_word letter, takeWhile_run inside ends, dropWhile_run inside ends]
  refine ⟨_, ⟨p, rfl⟩, by simp, ?_⟩
  rw [String.toList_ofList, List.cons_append, tokensAt_read found, word_of_reserved reserved]

theorem digits (n : Nat) :
    Displays (Single (.number (Number.ofDigits (Nat.toDigits 10 n) 0)) (String.ofList (Nat.toDigits 10 n)))
      (Nat.toDigits 10 n) := by
  have all : ∀ d ∈ Nat.toDigits 10 n, d.isDigit = true :=
    fun d mem => Nat.isDigit_of_mem_toDigits (by decide) (by decide) mem
  cases shown : Nat.toDigits 10 n with
  | nil => exact absurd shown Nat.toDigits_ne_nil
  | cons c cs =>
    rw [shown] at all
    exact fun p rest apart => ⟨_, ⟨p, rfl⟩, by simp, tokensAt_read (read_digits all apart) p⟩

end Displays

namespace Bounds

theorem toList_text (k : Int) :
    (toString k).toList = if k < 0 then '-' :: Nat.toDigits 10 k.natAbs else Nat.toDigits 10 k.natAbs := by
  cases k with
  | ofNat n =>
    have positive : ¬Int.ofNat n < 0 := Int.not_lt.2 (Int.natCast_nonneg n)
    rw [if_neg positive]
    exact Nat.toList_repr
  | negSucc n =>
    have negative : Int.negSucc n < 0 := Int.negSucc_lt_zero n
    rw [if_pos negative]
    show ("-" ++ (n + 1).repr).toList = _
    rw [String.toList_append, Nat.toList_repr]
    rfl

theorem toList_render (b : Bounds) :
    b.render.toList = (toString b.lower).toList ++ ':' :: (toString b.upper).toList := by
  show (toString b.lower ++ ":" ++ toString b.upper).toList = _
  rw [String.toList_append, String.toList_append, List.append_assoc]
  rfl

/-- Bounds that numbers of the language have exactly. -/
def Exact (b : Bounds) : Prop := b.lower.natAbs ≤ 2 ^ 53 ∧ b.upper.natAbs ≤ 2 ^ 53

instance (b : Bounds) : Decidable b.Exact := inferInstanceAs (Decidable (_ ∧ _))

theorem displays_end {k : Int} (small : k.natAbs ≤ 2 ^ 53) : Displays (End k) (toString k).toList := by
  have whole := Number.whole?_ofDigits small
  have integer := Number.toInt64_of_whole? whole (by omega) (by omega)
  rw [toList_text]
  split
  next negative =>
    have same : Number.negate64 (Number.toInt64 (Number.ofDigits (Nat.toDigits 10 k.natAbs) 0)) = k := by
      have least : (-Int.pow 2 63 : Int) < 0 := by decide
      rw [integer, Number.negate64, if_neg (by omega)]
      omega
    refine (Displays.mark (fun rest => rfl) (.digits k.natAbs) (by decide)).mono ?_
    rintro _ ⟨_, _, ⟨sign, rfl⟩, ⟨l, rfl⟩, rfl⟩
    have shown := End.negated (String.ofList (Nat.toDigits 10 k.natAbs)) sign l (Number.isWhole_of_whole? whole)
    rwa [same] at shown
  next positive =>
    have same : Number.toInt64 (Number.ofDigits (Nat.toDigits 10 k.natAbs) 0) = k := by omega
    refine (Displays.digits k.natAbs).mono ?_
    rintro _ ⟨l, rfl⟩
    have shown := End.plain (String.ofList (Nat.toDigits 10 k.natAbs)) l (Number.isWhole_of_whole? whole)
    rwa [same] at shown

theorem displays_render {b : Bounds} (exact : b.Exact) : Displays b.Spelled b.render.toList := by
  rw [toList_render]
  refine ((displays_end exact.1).join (.mark (fun rest => rfl) (displays_end exact.2) (by decide)) (by decide)).mono ?_
  rintro _ ⟨_, _, lower, ⟨_, _, ⟨l, rfl⟩, upper, rfl⟩, rfl⟩
  exact .between _ l lower upper

/-- Dimensions with commas between them. -/
theorem displays_all {dims : List Bounds} (some : dims ≠ []) (exact : ∀ b ∈ dims, b.Exact) :
    Displays (Separated Spelled dims) (String.intercalate ", " (dims.map render)).toList := by
  induction dims with
  | nil => contradiction
  | cons b dims ih =>
    have first := displays_render (exact b List.mem_cons_self)
    cases dims with
    | nil =>
      rw [List.map_singleton, String.intercalate_singleton]
      exact first.mono fun ts spelled => .one spelled
    | cons d dims =>
      have others := ih (by simp) fun b mem => exact b (List.mem_cons_of_mem _ mem)
      have text : (String.intercalate ", " ((b :: d :: dims).map render)).toList =
          b.render.toList ++ ',' :: ' ' :: (String.intercalate ", " ((d :: dims).map render)).toList := by
        simp only [List.map_cons, String.intercalate_cons_cons, String.toList_append, List.append_assoc]
        rfl
      rw [text]
      refine (first.join (.mark (fun rest => rfl) others.blank (by decide)) (by decide)).mono ?_
      rintro _ ⟨_, _, spelled, ⟨_, _, ⟨l, rfl⟩, items, rfl⟩, rfl⟩
      exact .more _ l spelled items

theorem displays_bracketed {dims : List Bounds} (some : dims ≠ []) (exact : ∀ b ∈ dims, b.Exact) :
    Displays (Bracketed dims) ('[' :: ((String.intercalate ", " (dims.map render)).toList ++ [']'])) := by
  have closed := (displays_all some exact).join (.mark (c := ']') (fun rest => rfl) .nothing (by decide)) (by decide)
  refine (Displays.mark (fun rest => rfl) closed (by decide)).mono ?_
  rintro _ ⟨_, _, ⟨l, rfl⟩, ⟨_, _, items, ⟨_, _, ⟨r, rfl⟩, rfl, rfl⟩, rfl⟩, rfl⟩
  exact .some _ _ l r items

end Bounds

namespace DataType

/-- No array has arrays for elements. -/
def Flat : DataType → Prop
  | .array _ element => element.isArray = false ∧ element.Flat
  | .pointer target => target.Flat
  | .integer | .real | .string | .char | .boolean => True

/-- The bounds of all arrays in a type. -/
def dimensions : DataType → List Bounds
  | .array dims element => dims ++ element.dimensions
  | .pointer target => target.dimensions
  | .integer | .real | .string | .char | .boolean => []

section Parts

variable {element target : DataType}

theorem displays_scalar {word : String} {type : DataType} (reserved : word ∈ keywords)
    (named : ofKeyword? word = some type) : Displays type.Spelled word.toList := by
  refine (Displays.keyword reserved).mono ?_
  rintro _ ⟨l, rfl⟩
  exact .scalar l named

theorem displays_of (h : Displays element.Spelled element.render.toList) :
    Displays (Consecutive (Single .keyword "OF") element.Spelled) ("OF".toList ++ ' ' :: element.render.toList) :=
  .join (.keyword (by decide)) h.blank (by decide)

theorem displays_unsized (h : Displays element.Spelled element.render.toList) (flat : element.isArray = false) :
    Displays (array [] element).Spelled (array [] element).render.toList := by
  have text : (array [] element).render.toList =
      "ARRAY".toList ++ ' ' :: ("OF".toList ++ ' ' :: element.render.toList) := by
    show ("ARRAY OF " ++ element.render).toList = _
    rw [String.toList_append]
    rfl
  rw [text]
  refine (Displays.join (.keyword (by decide)) (displays_of h).blank (by decide)).mono ?_
  rintro _ ⟨_, _, ⟨l, rfl⟩, ⟨_, _, ⟨r, rfl⟩, spelled, rfl⟩, rfl⟩
  exact .array l r .none flat spelled

theorem displays_sized {b : Bounds} {dims : List Bounds} (exact : ∀ d ∈ b :: dims, d.Exact)
    (h : Displays element.Spelled element.render.toList) (flat : element.isArray = false) :
    Displays (array (b :: dims) element).Spelled (array (b :: dims) element).render.toList := by
  have text : (array (b :: dims) element).render.toList =
      "ARRAY".toList ++ '[' :: ((String.intercalate ", " ((b :: dims).map Bounds.render)).toList ++ [']']) ++
        ' ' :: ("OF".toList ++ ' ' :: element.render.toList) := by
    show ("ARRAY[" ++ _ ++ "] OF " ++ element.render).toList = _
    simp only [String.toList_append, List.append_assoc, List.cons_append]
    rfl
  have bounds := Bounds.displays_bracketed (List.cons_ne_nil b dims) exact
  rw [text]
  refine ((Displays.join (.keyword (by decide)) bounds (by decide)).join (displays_of h).blank (by decide)).mono ?_
  rintro _ ⟨_, _, ⟨_, _, ⟨l, rfl⟩, bracketed, rfl⟩, ⟨_, _, ⟨r, rfl⟩, spelled, rfl⟩, rfl⟩
  exact .array l r bracketed flat spelled

theorem displays_pointer (h : Displays target.Spelled target.render.toList) :
    Displays target.pointer.Spelled target.pointer.render.toList := by
  have text : target.pointer.render.toList =
      "POINTER".toList ++ ' ' :: ("TO".toList ++ ' ' :: target.render.toList) := by
    show ("POINTER TO " ++ target.render).toList = _
    rw [String.toList_append]
    rfl
  rw [text]
  have aim : Displays _ ("TO".toList ++ ' ' :: target.render.toList) := .join (.keyword (by decide)) h.blank (by decide)
  refine (Displays.join (.keyword (by decide)) aim.blank (by decide)).mono ?_
  rintro _ ⟨_, _, ⟨l, rfl⟩, ⟨_, _, ⟨r, rfl⟩, spelled, rfl⟩, rfl⟩
  exact .pointer l r spelled

end Parts

theorem displays_render {type : DataType} (flat : type.Flat) (exact : ∀ b ∈ type.dimensions, b.Exact) :
    Displays type.Spelled type.render.toList := by
  induction type with
  | integer | real | string | char | boolean => exact displays_scalar (by decide) rfl
  | array dims element ih =>
    have inner := ih flat.2 fun b mem => exact b (List.mem_append_right _ mem)
    cases dims with
    | nil => exact displays_unsized inner flat.1
    | cons b dims => exact displays_sized (fun d mem => exact d (List.mem_append_left _ mem)) inner flat.1
  | pointer target ih => exact displays_pointer (ih flat exact)

/-- The text of a type is read back as that type, up to the end of the text: arrays without bounds, several
dimensions, negative bounds, and pointers to all of them. -/
theorem render_reads_back (type : DataType) (flat : type.Flat) (shallow : type.depth ≤ maxNesting)
    (exact : ∀ b ∈ type.dimensions, b.Exact) :
    ∃ ts finish, tokenize type.render = .ok (ts ++ [⟨.endOfInput, "", finish⟩]) ∧
      TokenStream.ofTokens (ts ++ [⟨.endOfInput, "", finish⟩]) = ⟨ts, finish⟩ ∧
        (Reader.type : Reader _) finish ts = .ok (type, []) := by
  obtain ⟨ts, spelled, code, read⟩ := displays_render flat exact .start [] nofun
  rw [List.append_nil, tokensAt_nil] at read
  refine ⟨ts, _, read, ?_, ?_⟩
  · have kept : ts.filter (·.kind != .comment) = ts := by
      rw [List.filter_eq_self]
      exact fun t mem => by simpa using code t mem
    rw [TokenStream.ofTokens_ended (tokensAt_others read), kept]
  · have clause (finish : Location) : (Reader.type : Reader _) finish (ts ++ []) = .ok (type, []) :=
      (Reader.typeClause_yields spelled maxNesting []).reads shallow
    rw [List.append_nil] at clause
    exact clause _

theorem matrix_pointer_reads_back :
    ∃ type, type = pointer (array [⟨-2 ^ 53, 2 ^ 53⟩, ⟨0, -3⟩] (pointer (array [] string))) ∧
      type.render = "POINTER TO ARRAY[-9007199254740992:9007199254740992, 0:-3] OF POINTER TO ARRAY OF STRING" ∧
        type.Flat ∧ type.depth ≤ maxNesting ∧ (∀ b ∈ type.dimensions, b.Exact) ∧
          ∃ ts finish, tokenize type.render = .ok (ts ++ [⟨.endOfInput, "", finish⟩]) ∧
            TokenStream.ofTokens (ts ++ [⟨.endOfInput, "", finish⟩]) = ⟨ts, finish⟩ ∧
              (Reader.type : Reader _) finish ts = .ok (type, []) :=
  ⟨_, rfl, by decide +kernel, ⟨rfl, rfl, trivial⟩, by decide, by decide,
    render_reads_back _ ⟨rfl, rfl, trivial⟩ (by decide) (by decide)⟩

end DataType

end Pseudocode
