import Pseudocode.Syntax.Reader.Stmt

/-!
Two inputs that the rules of the grammar do the same with. What has to be known about the two is said once
(`Accord`): that they agree on the few questions that rules put to an input. That they agree on types,
expressions and statements follows here, rule by rule.
-/

namespace Pseudocode

open Reader

instance : LawfulMonad Reader := inferInstanceAs (LawfulMonad (ReaderT _ _))

/-- Where the two inputs stand: inside of a line, behind the end of one, or at a token that is known. -/
inductive Spot where
  | line
  | gap
  | token (t : Token)

/-- A known token is the first of these. -/
def Spot.Known : Spot → List Token → Prop
  | .token t, ts => ts.head? = some t
  | _, _ => True

/-- Any result will do. -/
def Reader.Any {α : Type} (_ : α) : Prop := True

/-- A sort of tokens that their places do not matter for, and that no end of a line is of. -/
structure Plain (sort : Token → Bool) : Prop where
  blind : ∀ t l, sort { t with location := l } = sort t
  dark : ∀ t, sort t = true → t.kind ≠ .newline

theorem plain_isKind {kind : TokenKind} (other : kind ≠ .newline) : Plain (isKind kind) where
  blind _ _ := rfl
  dark t here line := other ((by simpa [isKind] using here : t.kind = kind) ▸ line)

theorem plain_isKeyword (word : String) : Plain (·.isKeyword word) where
  blind _ _ := rfl
  dark t here line := by simp [Token.isKeyword, line] at here

theorem plain_isOperator (symbol : String) : Plain (·.isOperator symbol) where
  blind _ _ := rfl
  dark t here line := by simp [Token.isOperator, line] at here

/-- Two inputs that agree. The places of the second are given by `place`, and those of its trees by `node`,
which differ at ends of lines only; on the first, tokens and the end of the input are `Inside`. `Alike few P Q g K r r'`
says that `r` and `r'`, from `P` to `Q` on inputs that have at most `few` tokens left, end with results of which `K`
holds and that `g` turns into each other, or with the same error. -/
structure Accord (m m' : Type → Type) [Monad m] [LawfulMonad m] [Cursor m] [Monad m'] [LawfulMonad m'] [Cursor m']
    where
  place : Location → Location
  node : Location → Location
  Inside : Location → Prop
  Alike {α : Type} (few : Nat) (P Q : Spot) (g : α → α) (K : α → Prop) (r : m α) (r' : m' α) : Prop
  known {α : Type} {few : Nat} {Q : Spot} {g : α → α} {K : α → Prop} {r : m α} {r' : m' α} :
    Alike few .line Q g K r r' → ∀ t, Alike few (.token t) Q g K r r'
  tight {α : Type} {few : Nat} {Q : Spot} {g : α → α} {K : α → Prop} {r : m α} {r' : m' α} :
    Alike few .gap Q g K r r' → Alike few .line Q g K r r'
  loosen {α : Type} {few : Nat} {P : Spot} {g : α → α} {K : α → Prop} {r : m α} {r' : m' α} :
    Alike few P .line g K r r' → Alike few P .gap g K r r'
  given {α : Type} {few : Nat} {P : Spot} {g : α → α} {K : α → Prop} {a : α} :
    K a → Alike few P P g K (pure a) (pure (g a))
  bind {α β : Type} {few : Nat} {P Q R : Spot} {g : α → α} {h : β → β} {K : α → Prop} {L : β → Prop} {x : m α}
    {x' : m' α} {f : α → m β} {f' : α → m' β} : Alike few P Q g K x x' →
      (∀ a, K a → Alike few Q R h L (f a) (f' (g a))) → Alike few P R h L (x >>= f) (x' >>= f')
  peekThen {β : Type} {few : Nat} {Q : Spot} {h : β → β} {L : β → Prop} {f : Option Token → m β}
    {f' : Option Token → m' β} : Alike few .line Q h L (f none) (f' none) →
      (∀ t, (t.kind ≠ .newline → place t.location = node t.location) → Inside t.location →
        Alike few (.token t) Q h L (f (some t)) (f' (some ⟨t.kind, t.text, place t.location⟩))) →
      Alike few .line Q h L (peek >>= f) (peek >>= f')
  peekAt {β : Type} {few : Nat} {Q : Spot} {h : β → β} {L : β → Prop} {f : Option Token → m β}
    {f' : Option Token → m' β} {t : Token} :
    Alike few (.token t) Q h L (f (some t)) (f' (some ⟨t.kind, t.text, place t.location⟩)) →
      Alike few (.token t) Q h L (peek >>= f) (peek >>= f')
  placed {few : Nat} : Alike few .line .line place Inside Reader.place Reader.place
  /-- A place that trees may stand at, unless the end of a line is there. -/
  placeThen {β : Type} {few : Nat} {Q : Spot} {h : β → β} {L : β → Prop} {f : Location → m β} {f' : Location → m' β} :
    (∀ l, Inside l → Alike few .line Q h L (f l) (f' (node l))) →
      (∀ t, t.kind = .newline → Alike few (.token t) Q h L (f t.location) (f' (place t.location))) →
      Alike few .line Q h L (Reader.place >>= f) (Reader.place >>= f')
  /-- A token that is taken is no longer left. -/
  advance {β : Type} {few : Nat} {Q : Spot} {h : β → β} {L : β → Prop} {f : Unit → m β} {f' : Unit → m' β}
    {t : Token} : t.kind ≠ .newline → Alike (few - 1) .line Q h L (f ()) (f' ()) →
      Alike few (.token t) Q h L (advance >>= f) (advance >>= f')
  advanceLine {β : Type} {few : Nat} {Q : Spot} {h : β → β} {L : β → Prop} {f : Unit → m β} {f' : Unit → m' β}
    {t : Token} : t.kind = .newline → Alike few .gap Q h L (f ()) (f' ()) →
      Alike few (.token t) Q h L (Reader.advance >>= f) (Reader.advance >>= f')
  failThen {α α' β : Type} {few : Nat} {P Q : Spot} {h : β → β} {L : β → Prop} {f : α → m β} {f' : α' → m' β}
    {l : Location} (complaint : Complaint) : Inside l →
      Alike few P Q h L (failAt l complaint >>= f) (failAt (place l) complaint >>= f')
  skipNewlines {few : Nat} : Alike few .gap .line id Any skipNewlines skipNewlines
  counted {β : Type} {few : Nat} {P Q : Spot} {h : β → β} {L : β → Prop} {f : Nat → m β} {f' : Nat → m' β} :
    (∀ n, Alike n P Q h L (f n) (f' n)) → Alike few P Q h L (left >>= f) (left >>= f')
  exhausted {α : Type} {P Q : Spot} {g : α → α} {K : α → Prop} {r : m α} {r' : m' α} :
    Alike 0 P Q g K r r' → Alike 0 P Q g K (exhausted r) (exhausted r')

theorem Reader.accept_bind {m : Type → Type} [Monad m] [LawfulMonad m] [Cursor m] {α : Type}
    (sort : Token → Bool) (f : Bool → m α) :
    accept sort >>= f = peek >>= fun t => if t.any sort then advance >>= fun _ => f true else f false := by
  simp only [accept, check, bind_assoc, pure_bind]
  refine bind_congr fun t => ?_
  split
  · rw [bind_assoc]
    simp only [pure_bind]
  · rw [pure_bind]

namespace Accord

variable {m m' : Type → Type} [Monad m] [LawfulMonad m] [Cursor m] [Monad m'] [LawfulMonad m'] [Cursor m']
  {A : Accord m m'} {few : Nat} {P Q R : Spot} {α β : Type} {g : α → α} {h : β → β} {K : α → Prop} {L : β → Prop}
  {r x y : m α} {r' x' y' : m' α} {f : α → m β} {f' : α → m' β}

/-- Inside of lines. -/
abbrev Steady (A : Accord m m') (few : Nat) (g : α → α) (K : α → Prop) (r : m α) (r' : m' α) : Prop :=
  A.Alike few .line .line g K r r'

/-- With the same results. -/
abbrev Agree (A : Accord m m') (few : Nat) (r : m α) (r' : m' α) : Prop := A.Steady few id Any r r'

namespace Alike

theorem known (first : A.Alike few .line Q g K r r') (t : Token) : A.Alike few (.token t) Q g K r r' :=
  A.known first t

theorem tight (first : A.Alike few .gap Q g K r r') : A.Alike few .line Q g K r r' := A.tight first

theorem pure {a : α} {a' : α} (same : a' = g a) (holds : K a) : A.Alike few P P g K (pure a) (pure a') :=
  same ▸ A.given holds

theorem same {a : α} : A.Alike few P P id Any (Pure.pure a) (Pure.pure a) := A.given trivial

theorem bind (first : A.Alike few P Q g K x x') (next : ∀ a, K a → A.Alike few Q R h L (f a) (f' (g a))) :
    A.Alike few P R h L (x >>= f) (x' >>= f') :=
  A.bind first next

/-- What was read is the same on both sides, and nothing more is known of it. -/
theorem after (first : A.Alike few P Q id K x x') (next : ∀ a, A.Alike few Q R h L (f a) (f' a)) :
    A.Alike few P R h L (x >>= f) (x' >>= f') :=
  first.bind fun a _ => next a

theorem map {k k' : α → β} (first : A.Alike few P Q g K r r') (same : ∀ a, k' (g a) = h (k a))
    (holds : ∀ a, K a → L (k a)) : A.Alike few P Q h L (k <$> r) (k' <$> r') := by
  rw [map_eq_pure_bind, map_eq_pure_bind]
  exact first.bind fun a known => pure (same a) (holds a known)

theorem weaken {K' : α → Prop} (first : A.Alike few P Q g K r r') (weaker : ∀ a, K a → K' a) :
    A.Alike few P Q g K' r r' := by
  have whole : A.Alike few P Q g K' (id <$> r) (id <$> r') := first.map (fun _ => rfl) weaker
  rwa [id_map, id_map] at whole

theorem discard (first : A.Alike few P Q g K r r') : A.Alike few P Q id Any (discard r) (discard r') := by
  simp only [Functor.discard, LawfulFunctor.map_const, Function.comp_apply]
  exact first.map (fun _ => rfl) fun _ _ => trivial

theorem ite {c : Prop} [Decidable c] (first : c → A.Alike few P Q g K x x')
    (second : ¬ c → A.Alike few P Q g K y y') :
    A.Alike few P Q g K (if c then x else y) (if c then x' else y') := by
  split
  · next holds => exact first holds
  · next fails => exact second fails

/-- Two ways lead on to the same. -/
theorem join {c : Prop} [Decidable c] (first : A.Alike few P Q g K x x') (second : A.Alike few P Q g K y y')
    (next : ∀ a, K a → A.Alike few Q R h L (f a) (f' (g a))) :
    A.Alike few P R h L (if c then x >>= f else y >>= f) (if c then x' >>= f' else y' >>= f') :=
  ite (fun _ => first.bind next) fun _ => second.bind next

theorem found : A.Agree few found found := A.peekThen same fun t _ _ => same.known t

theorem failAt {l : Location} (inside : A.Inside l) (complaint : Complaint) :
    A.Alike few P Q g K (failAt l complaint) (failAt (A.place l) complaint) := by
  have whole : A.Alike few P Q g K (Reader.failAt l complaint >>= Pure.pure)
    (Reader.failAt (A.place l) complaint >>= Pure.pure) := A.failThen complaint inside
  rwa [bind_pure, bind_pure] at whole

theorem failThen {α' : Type} {f' : α' → m' β} (complaint : Complaint) :
    A.Alike few .line Q h L (fail complaint >>= f) (fail complaint >>= f') := by
  simp only [Reader.fail, bind_assoc]
  exact A.placed.bind fun _ => A.failThen complaint

theorem fail (complaint : Complaint) : A.Alike few .line Q g K (fail complaint) (fail complaint) :=
  A.placed.bind fun _ inside => failAt inside complaint

theorem expectedThen (what : String) :
    A.Alike few .line Q h L (expected what >>= f) (expected what >>= f') := by
  simp only [Reader.expected, bind_assoc]
  exact found.after fun _ => failThen _

theorem expected (what : String) : A.Alike few .line Q g K (expected what) (expected what) :=
  found.after fun _ => fail _

theorem check {sort : Token → Bool} (blind : ∀ t l, sort { t with location := l } = sort t) :
    A.Agree few (check sort) (check sort) :=
  A.peekThen same fun t _ _ => (pure (blind t _) trivial).known t

theorem atEnd : A.Agree few atEnd atEnd := A.peekThen same fun t _ _ => same.known t

/-- A token is taken on both sides, or something else is tried. -/
theorem acceptThen {sort : Token → Bool} (plain : Plain sort) {f : Bool → m β} {f' : Bool → m' β}
    (yes : A.Alike (few - 1) .line Q h L (f true) (f' true)) (no : A.Alike few .line Q h L (f false) (f' false)) :
    A.Alike few .line Q h L (accept sort >>= f) (accept sort >>= f') := by
  rw [accept_bind, accept_bind]
  refine A.peekThen no fun t _ _ => ?_
  simp only [Option.any_some, plain.blind t]
  exact ite (fun here => A.advance (plain.dark t here) yes) fun _ => no.known t

/-- The current token is not of the sort. -/
theorem acceptThen_of_line {sort : Token → Bool} (plain : Plain sort) {f : Bool → m β} {f' : Bool → m' β} {t : Token}
    (line : t.kind = .newline) (no : A.Alike few (.token t) Q h L (f false) (f' false)) :
    A.Alike few (.token t) Q h L (accept sort >>= f) (accept sort >>= f') := by
  rw [accept_bind, accept_bind]
  refine A.peekAt ?_
  simp only [Option.any_some, plain.blind t]
  exact ite (fun here => absurd line (plain.dark t here)) fun _ => no

theorem accept {sort : Token → Bool} (plain : Plain sort) : A.Agree few (accept sort) (accept sort) := by
  have whole : A.Agree few (Reader.accept sort >>= Pure.pure) (Reader.accept sort >>= Pure.pure) :=
    acceptThen plain same same
  rwa [bind_pure, bind_pure] at whole

theorem expectKind (kind : TokenKind) (what : String) (other : kind ≠ .newline) :
    A.Agree few (expectKind kind what) (expectKind kind what) :=
  acceptThen (plain_isKind other) same (expected _)

/-- The token that is expected has been taken. -/
theorem expectThen (kind : TokenKind) (what : String) (other : kind ≠ .newline) {f : Unit → m β} {f' : Unit → m' β}
    (next : A.Alike (few - 1) .line Q h L (f ()) (f' ())) :
    A.Alike few .line Q h L (Reader.expectKind kind what >>= f) (Reader.expectKind kind what >>= f') := by
  simp only [Reader.expectKind, bind_assoc]
  refine acceptThen (plain_isKind other) ?_ (expectedThen _)
  simpa using next

theorem expectKeyword (word context : String) :
    A.Agree few (expectKeyword word context) (expectKeyword word context) :=
  acceptThen (plain_isKeyword word) same (expected _)

theorem expectIdentifier : A.Agree few expectIdentifier expectIdentifier := by
  refine A.peekThen (expected _) fun t _ _ => ite (fun name => ?_) fun _ => (expected _).known t
  exact A.advance (name ▸ nofun) same

/-- Behind the end of a line, an empty line may come next. -/
theorem endOfStatement : A.Alike few .line .gap id Any endOfStatement endOfStatement := by
  have ended : A.Agree few (Pure.pure () : m Unit) (Pure.pure () : m' Unit) := same
  simp only [Reader.endOfStatement, Reader.atEnd, Reader.expectKind, accept_bind, bind_assoc, pure_bind]
  refine A.peekThen (A.loosen ended) fun t _ _ => A.peekAt ?_
  simp only [Option.any_some]
  exact ite (fun here => A.advanceLine (beq_iff_eq.1 here) same) fun _ => (expected _).known t

theorem moreItems {item : m α} {item' : m' α} (first : ∀ few, A.Steady few g K item item') (n : Nat) {items : List α}
    (before : ∀ a ∈ items, K a) : A.Steady n (List.map g) (fun as => ∀ a ∈ as, K a) (moreItems item n items)
      (moreItems item' n (items.map g)) := by
  induction n generalizing items with
  | zero => exact A.exhausted (pure rfl before)
  | succ n ih =>
    refine acceptThen (plain_isKind (by decide)) ((first n).bind fun a holds => ?_) (pure rfl before)
    have more := ih (List.forall_mem_append.2 ⟨before, List.forall_mem_singleton.2 holds⟩)
    rwa [List.map_append] at more

theorem commaList {item : m α} {item' : m' α} (first : ∀ few, A.Steady few g K item item') :
    A.Steady few (List.map g) (fun as => ∀ a ∈ as, K a) (commaList item) (commaList item') :=
  (first few).bind fun _ holds => A.counted fun n => moreItems first n (List.forall_mem_singleton.2 holds)

end Alike

end Accord

end Pseudocode
