import Pseudocode.Proofs.Grammar.Spelling

/-!
Readers, run. A reader that is given what it is to read either gives the tree and leaves the tokens behind
it, or fails because the nesting is too deep, and which of the two it does depends on the depth alone
(`Yields`). Such readers follow each other, and a list of them reads items with commas between.
-/

namespace Pseudocode.Reader

variable {α β : Type} {finish : Location} {ts mid rest : List Token}

theorem bind_of_ok {x : Reader α} {f : α → Reader β} {a : α} (ran : x finish ts = .ok (a, mid)) :
    (x >>= f) finish ts = f a finish mid := by
  show Except.bind (x finish ts) (fun p => f p.1 finish p.2) = _
  rw [ran]
  rfl

theorem bind_of_error {x : Reader α} {f : α → Reader β} {e : SyntaxError}
    (ran : x finish ts = .error e) : (x >>= f) finish ts = .error e := by
  show Except.bind (x finish ts) (fun p => f p.1 finish p.2) = _
  rw [ran]
  rfl

section Tokens

variable {t : Token}

theorem peek_cons : (peek : Reader _) finish (t :: ts) = .ok (some t, t :: ts) := rfl

theorem place_cons : (place : Reader _) finish (t :: ts) = .ok (t.location, t :: ts) := rfl

theorem advance_cons : (advance : Reader _) finish (t :: ts) = .ok ((), ts) := rfl

theorem check_eq (sort : Token → Bool) : (check sort : Reader _) finish ts = .ok (ts.head?.any sort, ts) := rfl

theorem place_ok (finish : Location) (ts : List Token) : ∃ l, (place : Reader _) finish ts = .ok (l, ts) := by
  cases ts with
  | nil => exact ⟨finish, rfl⟩
  | cons t ts => exact ⟨t.location, rfl⟩

theorem accept_of {sort : Token → Bool} (here : sort t = true) :
    (accept sort : Reader _) finish (t :: ts) = .ok (true, ts) := by
  unfold accept
  rw [bind_of_ok (check_eq sort), List.head?_cons, Option.any_some, here]
  rfl

theorem accept_of_not {sort : Token → Bool} (absent : ts.head?.any sort = false) :
    (accept sort : Reader _) finish ts = .ok (false, ts) := by
  unfold accept
  rw [bind_of_ok (check_eq sort), absent]
  rfl

theorem accept_cons_of_not {sort : Token → Bool} (absent : sort t = false) :
    (accept sort : Reader _) finish (t :: ts) = .ok (false, t :: ts) :=
  accept_of_not absent

theorem isKind_mk (kind : TokenKind) (text : String) (l : Location) : isKind kind ⟨kind, text, l⟩ = true := by
  simp [isKind]

theorem expectKind_cons (kind : TokenKind) (what text : String) (l : Location) :
    (expectKind kind what : Reader _) finish (⟨kind, text, l⟩ :: ts) = .ok ((), ts) := by
  unfold expectKind
  rw [bind_of_ok (accept_of (isKind_mk kind text l))]
  rfl

theorem expectKeyword_of {word : String} (context : String) (here : t.isKeyword word = true) :
    (expectKeyword word context : Reader _) finish (t :: ts) = .ok ((), ts) := by
  unfold expectKeyword acceptKeyword
  rw [bind_of_ok (accept_of here)]
  rfl

theorem count_append (ts us : List Token) : count (ts ++ us) = count ts + count us := List.countP_append

theorem count_cons (dark : isKind .newline t = false) : count (t :: ts) = count ts + 1 :=
  List.countP_cons_of_pos (by rw [dark]; rfl)

end Tokens

/-- A reader that gives `a` and leaves `rest` if what it reads `fits`, and otherwise fails because it is
nested too deeply. -/
structure Yields (finish : Location) (fits : Prop) (r : Reader α) (ts rest : List Token) (a : α) : Prop where
  reads : fits → r finish ts = .ok (a, rest)
  fails : ¬ fits → ∃ place, r finish ts = .error ⟨.tooDeep .expression, place⟩

namespace Yields

variable {fits fits' : Prop} {x : Reader α} {f : α → Reader β} {a : α} {b : β}

theorem congr (h : Yields finish fits x ts rest a) (same : fits ↔ fits') : Yields finish fits' x ts rest a :=
  ⟨fun fit => h.reads (same.2 fit), fun deep => h.fails fun fit => deep (same.1 fit)⟩

theorem of_ok (ran : x finish ts = .ok (a, rest)) : Yields finish True x ts rest a :=
  ⟨fun _ => ran, fun deep => absurd trivial deep⟩

theorem of_eq {y : Reader α} (same : x finish ts = y finish mid) (h : Yields finish fits y mid rest a) :
    Yields finish fits x ts rest a := by
  constructor
  · rw [same]
    exact h.reads
  · rw [same]
    exact h.fails

/-- A step that does not depend on the depth comes first. -/
theorem after (ran : x finish ts = .ok (a, mid)) (next : Yields finish fits (f a) mid rest b) :
    Yields finish fits (x >>= f) ts rest b := by
  constructor
  · intro fit
    rw [bind_of_ok ran]
    exact next.reads fit
  · intro deep
    rw [bind_of_ok ran]
    exact next.fails deep

theorem bind (first : Yields finish fits x ts mid a) (next : Yields finish fits' (f a) mid rest b) :
    Yields finish (fits ∧ fits') (x >>= f) ts rest b := by
  constructor
  · intro ⟨fit, fit'⟩
    rw [bind_of_ok (first.reads fit)]
    exact next.reads fit'
  · intro deep
    by_cases fit : fits
    · rw [bind_of_ok (first.reads fit)]
      exact next.fails fun fit' => deep ⟨fit, fit'⟩
    · obtain ⟨place, failed⟩ := first.fails fit
      exact ⟨place, bind_of_error failed⟩

/-- What follows does not depend on the depth. -/
theorem before (first : Yields finish fits x ts mid a) (next : f a finish mid = .ok (b, rest)) :
    Yields finish fits (x >>= f) ts rest b :=
  (first.bind (.of_ok next)).congr ⟨fun h => h.1, fun h => ⟨h, trivial⟩⟩

theorem map (h : Yields finish fits x ts rest a) (g : α → β) : Yields finish fits (g <$> x) ts rest (g a) := by
  rw [map_eq_pure_bind]
  exact h.before rfl

/-- A reader of the level inside takes one level of nesting. -/
theorem nested (field reader : Nested Reader → Reader α) (none : field (nested 0) = fail (.tooDeep .expression))
    (some : ∀ n, field (Reader.nested (n + 1)) = reader (Reader.nested n)) {depth : Nat}
    (h : ∀ n, Yields finish (depth ≤ n) (reader (Reader.nested n)) ts rest a) (n : Nat) :
    Yields finish (depth + 1 ≤ n) (field (Reader.nested n)) ts rest a := by
  cases n with
  | zero =>
    refine ⟨fun fit => absurd fit (Nat.not_succ_le_zero depth), fun _ => ?_⟩
    obtain ⟨l, here⟩ := place_ok finish ts
    refine ⟨l, ?_⟩
    rw [none, fail, bind_of_ok here]
    rfl
  | succ n =>
    rw [some]
    exact (h n).congr Nat.add_le_add_iff_right.symm

end Yields

section Items

variable {item : Reader α} {fits : α → Prop}

theorem moreItems_of_not (k : Nat) (items : List α) (done : ts.head?.any (isKind .comma) = false) :
    moreItems item k items finish ts = .ok (items, ts) := by
  cases k with
  | zero => rfl
  | succ k =>
    unfold moreItems
    rw [bind_of_ok (accept_of_not done)]
    rfl

-- Each item may be followed by what ends an item: a comma, or the end of the list.
variable (Ends : List Token → Prop) (commaEnds : ∀ comma l us, Ends (⟨.comma, comma, l⟩ :: us)) {as : List α}
  {us : List Token}
  (h : Separated (fun a ts => ∀ rest, Ends rest → Yields finish (fits a) item (ts ++ rest) rest a) as us)
  (ends : Ends rest) (done : rest.head?.any (isKind .comma) = false)

include commaEnds h ends done

/-- Items behind a comma. -/
theorem moreItems_yields (comma : String) (l : Location) (items : List α) {k : Nat}
    (enough : count us < k) :
    Yields finish (∀ a ∈ as, fits a) (moreItems item k items) (⟨.comma, comma, l⟩ :: us ++ rest) rest
      (items ++ as) := by
  induction h generalizing comma l items k with
  | @one a ts reads =>
    obtain ⟨k, rfl⟩ := Nat.exists_eq_add_one.2 (Nat.zero_lt_of_lt enough)
    unfold moreItems
    refine .after (accept_of (isKind_mk .comma comma l)) ?_
    refine ((reads rest ends).before ?_).congr (by simp)
    exact moreItems_of_not k (items ++ [a]) done
  | @more a as ts us comma' l' reads _ ih =>
    obtain ⟨k, rfl⟩ := Nat.exists_eq_add_one.2 (Nat.zero_lt_of_lt enough)
    rw [count_append, count_cons rfl] at enough
    have next := ih comma' l' (items ++ [a]) (k := k) (by omega)
    rw [List.append_assoc, List.singleton_append] at next
    rw [List.cons_append, List.append_assoc]
    unfold moreItems
    refine .after (accept_of (isKind_mk .comma comma l)) ?_
    exact ((reads _ (commaEnds comma' l' (us ++ rest))).bind next).congr (by simp)

theorem commaList_yields : Yields finish (∀ a ∈ as, fits a) (commaList item) (us ++ rest) rest as := by
  unfold commaList
  cases h with
  | @one a ts reads =>
    refine ((reads rest ends).before ?_).congr (by simp)
    exact moreItems_of_not (count rest) [a] done
  | @more a as ts us comma l reads others =>
    have next : Yields finish (∀ a ∈ as, fits a)
        (do moreItems item (← left) [a]) (⟨.comma, comma, l⟩ :: us ++ rest) rest (a :: as) := by
      have room : count us < count (⟨.comma, comma, l⟩ :: us ++ rest) := by
        rw [List.cons_append, count_cons rfl, count_append]
        omega
      exact .after rfl (moreItems_yields Ends commaEnds others ends done comma l [a] room)
    rw [List.append_assoc]
    exact ((reads _ (commaEnds comma l (us ++ rest))).bind next).congr (by simp)

end Items

section Types

theorem bound_reads {k : Int} (h : Bounds.End k ts) : (bound : Reader _) finish (ts ++ rest) = .ok (k, rest) := by
  cases h with
  | @plain n text l whole =>
    have unsigned : (⟨.number n, text, l⟩ : Token).isOperator "-" = false := rfl
    rw [List.singleton_append]
    unfold bound acceptOperator
    rw [bind_of_ok place_cons, bind_of_ok (accept_cons_of_not unsigned), bind_of_ok peek_cons]
    simp only [whole, if_true]
    rfl
  | @negated n text sign l whole =>
    have signed : (⟨.operator, "-", sign⟩ : Token).isOperator "-" = true := rfl
    rw [List.cons_append, List.singleton_append]
    unfold bound acceptOperator
    rw [bind_of_ok place_cons, bind_of_ok (accept_of signed), bind_of_ok peek_cons]
    simp only [whole, if_true]
    rfl

theorem bounds_reads {b : Bounds} (h : b.Spelled ts) : (bounds : Reader _) finish (ts ++ rest) = .ok (b, rest) := by
  obtain ⟨colon, l, lower, upper⟩ := h
  rw [List.append_assoc, List.cons_append]
  unfold bounds
  rw [bind_of_ok (bound_reads lower), bind_of_ok (expectKind_cons _ _ _ _), bind_of_ok (bound_reads upper)]
  rfl

/-- The bounds are followed by a reserved word. -/
theorem dimensions_reads {dims : List Bounds} (h : Bounds.Bracketed dims ts) {t : Token}
    (word : t.kind = .keyword) : (dimensions : Reader _) finish (ts ++ t :: rest) = .ok (dims, t :: rest) := by
  cases h with
  | none =>
    have absent : isKind .leftBracket t = false := by simp [isKind, word]
    unfold dimensions
    rw [List.nil_append, bind_of_ok (accept_cons_of_not absent)]
    rfl
  | @some _ us opening closing l r spelled =>
    have items : Yields finish (∀ b ∈ dims, True) (commaList bounds)
        (us ++ (⟨.rightBracket, closing, r⟩ :: t :: rest)) (⟨.rightBracket, closing, r⟩ :: t :: rest) dims := by
      refine commaList_yields (fun _ => True) (fun _ _ _ => trivial) ?_ trivial rfl
      exact spelled.mono fun b ts spelled rest _ => .of_ok (bounds_reads spelled)
    simp only [List.cons_append, List.append_assoc, List.nil_append]
    unfold dimensions
    rw [bind_of_ok (accept_of (isKind_mk .leftBracket opening l))]
    simp only [if_true]
    rw [bind_of_ok (items.reads fun _ _ => trivial), bind_of_ok (expectKind_cons _ _ _ _)]
    rfl

/-- The level inside of a type is that of its parts. -/
theorem typeClause_yields {type : DataType} (h : type.Spelled ts) (n : Nat) (rest : List Token) :
    Yields finish (type.depth ≤ n) (typeClause (nested n)) (ts ++ rest) rest type := by
  induction h generalizing n rest with
  | @scalar word type l scalar =>
    have flat : type.depth = 0 := by
      unfold DataType.ofKeyword? at scalar
      split at scalar <;> cases scalar <;> rfl
    have read : typeClause (nested n) finish (⟨.keyword, word, l⟩ :: rest) = .ok (type, rest) := by
      unfold typeClause
      rw [bind_of_ok place_cons, bind_of_ok peek_cons]
      simp only [if_true, scalar]
      rfl
    exact (Yields.of_ok read).congr (by simp [flat])
  | @array dims element ts us l r bracketed flat spelled ih =>
    have scalar : DataType.ofKeyword? "ARRAY" = none := rfl
    simp only [List.cons_append, List.append_assoc]
    unfold typeClause acceptKeyword
    refine .after place_cons (.after peek_cons ?_)
    simp only [if_true, scalar]
    refine .after (accept_of rfl) (.after (dimensions_reads bracketed rfl) ?_)
    refine .after (expectKeyword_of _ rfl) ?_
    refine (Yields.nested Nested.type typeClause rfl (fun _ => rfl) (fun n => ih n rest) n).before ?_
    simp only [flat]
    rfl
  | @pointer target ts l r spelled ih =>
    have scalar : DataType.ofKeyword? "POINTER" = none := rfl
    unfold typeClause acceptKeyword
    refine .after place_cons (.after peek_cons ?_)
    simp only [if_true, scalar]
    refine .after (accept_cons_of_not rfl) (.after (accept_of rfl) ?_)
    refine .after (expectKeyword_of _ rfl) ?_
    exact (Yields.nested Nested.type typeClause rfl (fun _ => rfl) (fun n => ih n rest) n).before rfl
  | @caret target ts l spelled ih =>
    unfold typeClause acceptKeyword acceptOperator
    refine .after place_cons (.after peek_cons ?_)
    refine .after (accept_cons_of_not rfl) (.after (accept_cons_of_not rfl) (.after (accept_of rfl) ?_))
    exact (Yields.nested Nested.type typeClause rfl (fun _ => rfl) (fun n => ih n rest) n).before rfl

end Types

end Pseudocode.Reader
