import Mathlib.Data.List.Basic
import LabelGrammar.Json.Printer
import LabelGrammar.Json.Token

/-! # Tokens of printed values

The text of a value on one line is cut into the tokens of the value. Only a number needs to know
what follows it.
-/

namespace LabelGrammar.Json

section Strings

variable {c e : Char} {cs : List Char}

theorem readString_shortEscape (h : shortEscape? e = some c) (hu : e ≠ 'u') :
    readString ('\\' :: e :: cs) = (readString cs).map fun p => (c :: p.1, p.2) := by
  rw [readString, h]
  · cases readString cs <;> rfl
  · intro a b c d rest he
    exact (hu he).elim

theorem readString_hexUnit {a b d f : Char} {n : Nat} (h : hexUnit? a b d f = some n)
    (hn : n < 0xD800) : readString ('\\' :: 'u' :: a :: b :: d :: f :: cs) =
      (readString cs).map fun p => (Char.ofNat n :: p.1, p.2) := by
  have h₁ : ¬ (0xD800 ≤ n ∧ n < 0xDC00) := by omega
  have h₂ : ¬ (0xDC00 ≤ n ∧ n < 0xE000) := by omega
  rw [readString, h]
  simp only [Bool.and_eq_true, decide_eq_true_eq, if_neg h₁, if_neg h₂, bind, Option.bind_some]
  cases readString cs <;> rfl

theorem readString_plain (hc : 0x20 ≤ c.toNat) (hq : c ≠ '"') (hb : c ≠ '\\') :
    readString (c :: cs) = (readString cs).map fun p => (c :: p.1, p.2) := by
  rw [readString]
  · simp only [Nat.not_lt.2 hc, decide_false, beq_false_of_ne hb, Bool.or_self]
    cases readString cs <;> rfl
  · exact hq
  · intro _ _ _ _ _ he
    exact (hb he).elim
  · intro _ _ he
    exact (hb he).elim

theorem hexUnit_control : ∀ n < 0x20,
    ((if n < 0x10 then ['0'] else []) ++ Text.hex n).length = 2 ∧
      Digits.read? 16 ('0' :: '0' :: ((if n < 0x10 then ['0'] else []) ++ Text.hex n)) =
        some n := by
  decide

theorem readString_stringChar (c : Char) (cs : List Char) :
    readString (stringChar c ++ cs) = (readString cs).map fun p => (c :: p.1, p.2) := by
  unfold stringChar
  split
  case h_8 hq hb _ _ _ _ _ =>
    split
    · next hc =>
      obtain ⟨hl, hr⟩ := hexUnit_control c.toNat hc
      obtain ⟨a, b, hab⟩ := List.length_eq_two.1 hl
      rw [hab] at hr
      rw [List.append_assoc _ _ (Text.hex _), hab]
      refine (readString_hexUnit hr (by omega)).trans ?_
      rw [Char.ofNat_toNat]
      rfl
    · next hc => exact readString_plain (Nat.not_lt.1 hc) hq hb
  all_goals exact readString_shortEscape rfl (by decide)

theorem readString_flatMap (s rest : List Char) :
    readString (s.flatMap stringChar ++ '"' :: rest) = some (s, rest) := by
  induction s with
  | nil => rw [List.flatMap_nil, List.nil_append, readString]
  | cons c s ih => rw [List.flatMap_cons, List.append_assoc, readString_stringChar, ih]; rfl

end Strings

/-- A text does not go on with a part of a number. -/
def Stops (cs : List Char) : Prop :=
  ∀ c ∈ cs.head?, c.isDigit = false ∧ c ≠ '.' ∧ c ≠ 'e' ∧ c ≠ 'E'

section Numbers

variable {n : Nat} {rest : List Char}

theorem span_toDigits (h : Stops rest) :
    Digits.span (Nat.toDigits 10 n ++ rest) = (Nat.toDigits 10 n, rest) := by
  have hd : ∀ c ∈ Nat.toDigits 10 n, c.isDigit = true := fun c hc =>
    Nat.isDigit_of_mem_toDigits (by decide) (by decide) hc
  rw [Digits.span, List.takeWhile_append_of_pos hd, List.dropWhile_append_of_pos hd]
  cases rest with
  | nil => simp
  | cons c rest =>
    have hc := (h c rfl).1
    simp [hc]

theorem le_ofDigitChars (ds : List Char) (n : Nat) : n ≤ Nat.ofDigitChars 10 ds n := by
  induction ds generalizing n with
  | nil => exact Nat.le_of_eq Nat.ofDigitChars_nil.symm
  | cons d ds ih =>
    rw [Nat.ofDigitChars_cons]
    exact Nat.le_trans (by omega) (ih _)

theorem takeDigits_eq {ds : List Char} (h : Nat.ofDigitChars 10 ds n ≤ Limits.maxNatural64) :
    takeDigits n ds = (Nat.ofDigitChars 10 ds n, []) := by
  induction ds generalizing n with
  | nil => rw [takeDigits, Nat.ofDigitChars_nil]
  | cons d ds ih =>
    rw [Nat.ofDigitChars_cons] at h ⊢
    have hd := Nat.le_trans (le_ofDigitChars ds _) h
    rw [Nat.mul_comm 10 n] at h hd ⊢
    rw [takeDigits, if_pos hd, ih h]

theorem digitChar_ne_zero : ∀ n < 10, 0 < n → n.digitChar ≠ '0' := by decide

theorem head_toDigits (h : 0 < n) : (Nat.toDigits 10 n).head? ≠ some '0' := by
  induction n using Nat.strongRecOn with
  | ind n ih =>
    by_cases hn : n < 10
    · rw [Nat.toDigits_of_lt_base hn]
      exact fun he => digitChar_ne_zero n hn h (Option.some.inj he)
    · have hq := ih (n / 10) (by omega) (by omega)
      rw [Nat.toDigits_of_base_le (by decide) (by omega), List.head?_append]
      cases hd : (Nat.toDigits 10 (n / 10)).head? with
      | none => exact (Nat.toDigits_ne_nil (List.head?_eq_none_iff.1 hd)).elim
      | some c => rwa [hd] at hq

theorem leadingZero_toDigits (n : Nat) : ((Nat.toDigits 10 n).isEmpty ||
    ((Nat.toDigits 10 n).head? == some '0' && 1 < (Nat.toDigits 10 n).length)) = false := by
  have he : (Nat.toDigits 10 n).isEmpty = false :=
    List.isEmpty_eq_false_iff.2 Nat.toDigits_ne_nil
  cases n with
  | zero => rfl
  | succ n => simp [he, head_toDigits (Nat.succ_pos n)]

theorem readFraction_stops (h : Stops rest) : readFraction rest = some (none, rest) := by
  cases rest with
  | nil => rfl
  | cons c rest =>
    rw [readFraction]
    intro _ hc
    exact ((h c rfl).2.1 (List.cons.inj hc).1).elim

theorem readExponent_stops (h : Stops rest) : readExponent rest = some (none, rest) := by
  cases rest with
  | nil => rfl
  | cons c rest =>
    obtain ⟨-, -, he, hE⟩ := h c rfl
    simp [readExponent, he, hE]

theorem readNumber_toDigits (negative : Bool) (h : Stops rest) :
    readNumber negative (Nat.toDigits 10 n ++ rest) =
      (numberValue? negative (Nat.toDigits 10 n) none none).map (·, rest) := by
  unfold readNumber
  simp only [span_toDigits h, leadingZero_toDigits, readFraction_stops h, readExponent_stops h,
    bind, Option.bind_some, Bool.false_eq_true, if_false]
  cases numberValue? negative (Nat.toDigits 10 n) none none <;> rfl

theorem takeDigits_toDigits (hn : n ≤ Limits.maxNatural64) :
    takeDigits 0 (Nat.toDigits 10 n) = (n, []) := by
  have hd : Nat.ofDigitChars 10 (Nat.toDigits 10 n) 0 = n := Nat.ofDigitChars_ten_toDigits
  rw [takeDigits_eq (by rwa [hd]), hd]

theorem readNumber_natural (h : Stops rest) (hn : n ≤ Limits.maxNatural64) :
    readNumber false (Nat.toDigits 10 n ++ rest) = some (.int n, rest) := by
  rw [readNumber_toDigits false h, numberValue?, takeDigits_toDigits hn]
  rfl

theorem readNumber_negative (h : Stops rest) (hp : 0 < n)
    (hn : Limits.minInteger64 ≤ -(n : Int)) :
    readNumber true (Nat.toDigits 10 n ++ rest) = some (.int (-n), rest) := by
  have hmin : Limits.minInteger64 = -0x8000000000000000 := rfl
  have hmax : Limits.maxNatural64 = 0xFFFFFFFFFFFFFFFF := rfl
  rw [readNumber_toDigits true h, numberValue?, takeDigits_toDigits (by omega)]
  simp [hp, hn]

end Numbers

inductive Cuts : List Char → List Token → Prop where
  | nil : Cuts [] []
  | cons {cs rest : List Char} {token : Token} {ts : List Token} :
      cs.dropWhile isSpace = cs → readToken cs = some (token, rest) → rest.length < cs.length →
        Cuts rest ts → Cuts cs (token :: ts)

theorem Cuts.tokensWithin_eq {cs : List Char} {ts : List Token} (h : Cuts cs ts) {n : Nat}
    (hn : cs.length ≤ n) : tokensWithin n cs = some ts := by
  induction h generalizing n with
  | nil => cases n <;> rfl
  | @cons cs rest token ts hs hr hl _ ih =>
    obtain ⟨n, rfl⟩ : ∃ m, n = m + 1 := ⟨n - 1, by omega⟩
    rw [tokensWithin, hs]
    cases cs with
    | nil => simp at hl
    | cons c cs =>
      have ht := ih (n := n) (by omega)
      simp only [hr, bind, Option.bind_some, ht]
      rfl

theorem Cuts.tokens_eq {cs : List Char} {ts : List Token} (h : Cuts cs ts) :
    tokens cs = some ts := h.tokensWithin_eq (Nat.le_refl _)

mutual

def tokensOf : Json → List Token
  | .str s => [.string s]
  | .arr items => .leftBracket :: tokensOfItems items ++ [.rightBracket]
  | .obj members => .leftBrace :: tokensOfMembers members ++ [.rightBrace]
  | v => [.atom v]

def tokensOfItems : List Json → List Token
  | [] => []
  | [v] => tokensOf v
  | v :: w :: rest => tokensOf v ++ .comma :: tokensOfItems (w :: rest)

def tokensOfMembers : List (String × Json) → List Token
  | [] => []
  | [(k, v)] => .string k :: .colon :: tokensOf v
  | (k, v) :: m :: rest =>
    .string k :: .colon :: tokensOf v ++ .comma :: tokensOfMembers (m :: rest)

end

/-- A value without floating-point numbers whose integers have 64 bits. -/
inductive Plain : Json → Prop where
  | null : Plain .null
  | bool (b : Bool) : Plain (.bool b)
  | int {i : Int} : Limits.minInteger64 ≤ i → i ≤ Limits.maxNatural64 → Plain (.int i)
  | str (s : String) : Plain (.str s)
  | arr {items : List Json} : (∀ v ∈ items, Plain v) → Plain (.arr items)
  | obj {members : List (String × Json)} : (∀ m ∈ members, Plain m.2) → Plain (.obj members)

section Values

variable {cs rest : List Char} {ts us : List Token}

theorem stops_nil : Stops [] := by
  intro c hc
  cases hc

theorem stops_cons {c : Char} (hd : c.isDigit = false) (hp : c ≠ '.') (he : c ≠ 'e')
    (hE : c ≠ 'E') : Stops (c :: rest) := by
  intro d hd'
  obtain rfl := Option.some.inj hd'
  exact ⟨hd, hp, he, hE⟩

theorem stops_comma : Stops (',' :: rest) :=
  stops_cons (by decide) (by decide) (by decide) (by decide)

/-- A text is cut into tokens whatever text without part of a number follows it. -/
def Splits (cs : List Char) (ts : List Token) : Prop :=
  ∀ rest us, Stops rest → Cuts rest us → Cuts (cs ++ rest) (ts ++ us)

theorem Cuts.string (k : String) (h : Cuts rest us) :
    Cuts (stringChars k ++ rest) (.string k :: us) := by
  refine .cons rfl ?_ (by simp only [stringChars, List.length_append, List.length_cons]; omega) h
  have hs : stringChars k ++ rest = '"' :: (k.toList.flatMap stringChar ++ '"' :: rest) := by
    simp [stringChars]
  rw [hs, readToken, readString_flatMap]
  simp

theorem readToken_digit {c : Char} (h : c.isDigit = true) (cs : List Char) :
    readToken (c :: cs) = (readNumber false (c :: cs)).map fun (v, rest) => (.atom v, rest) := by
  rw [readToken]
  all_goals
    intro _ he
    obtain ⟨rfl, -⟩ := List.cons.inj he
    exact absurd h (by decide)

theorem isSpace_of_isDigit {c : Char} (h : c.isDigit = true) : isSpace c = false := by
  have hne {d : Char} (hd : d.isDigit = false) : (c == d) = false := by
    refine beq_false_of_ne fun he => ?_
    rw [he, hd] at h
    cases h
  simp [isSpace, hne (d := ' ') (by decide), hne (d := '\t') (by decide),
    hne (d := '\n') (by decide), hne (d := '\r') (by decide)]

theorem Splits.literal {token : Token}
    (hs : ∀ rest, (cs ++ rest).dropWhile isSpace = cs ++ rest)
    (hr : ∀ rest, readToken (cs ++ rest) = some (token, rest)) (hl : 0 < cs.length) :
    Splits cs [token] := fun rest _ _ hc =>
  .cons (hs rest) (hr rest) (by rw [List.length_append]; omega) hc

theorem Splits.natural {n : Nat} (hn : n ≤ Limits.maxNatural64) :
    Splits (Nat.toDigits 10 n) [.atom (.int n)] := by
  intro rest us hs hc
  have hr := readNumber_natural hs hn
  have hd : ∀ c ∈ Nat.toDigits 10 n, c.isDigit = true := fun c hc =>
    Nat.isDigit_of_mem_toDigits (by decide) (by decide) hc
  cases he : Nat.toDigits 10 n with
  | nil => exact (Nat.toDigits_ne_nil he).elim
  | cons c ds =>
    rw [he, List.forall_mem_cons] at hd
    rw [he, List.cons_append] at hr
    refine .cons ?_ ?_ (by simp only [List.length_cons, List.length_append]; omega) hc
    · simp [isSpace_of_isDigit hd.1]
    · rw [List.cons_append, readToken_digit hd.1, hr]
      rfl

theorem Splits.negative {n : Nat} (hp : 0 < n) (hn : Limits.minInteger64 ≤ -(n : Int)) :
    Splits ('-' :: Nat.toDigits 10 n) [.atom (.int (-n))] := by
  intro rest us hs hc
  refine .cons rfl ?_ (by simp only [List.length_cons, List.length_append]; omega) hc
  rw [List.cons_append, readToken, readNumber_negative hs hp hn]
  rfl

theorem Splits.int {i : Int} (hmin : Limits.minInteger64 ≤ i) (hmax : i ≤ Limits.maxNatural64) :
    Splits (toString i).toList [.atom (.int i)] := by
  have hlimit : Limits.maxNatural64 = 0xFFFFFFFFFFFFFFFF := rfl
  rw [Int.toString_eq_repr, Int.repr_eq_if]
  split
  · next hi =>
    have hs := Splits.natural (n := i.toNat) (by omega)
    rw [Int.toNat_of_nonneg hi] at hs
    rwa [Nat.toList_repr]
  · next hi =>
    have hn : ((-i).toNat : Int) = -i := Int.toNat_of_nonneg (by omega)
    have hs := Splits.negative (n := (-i).toNat) (by omega) (by omega)
    rw [hn, Int.neg_neg] at hs
    rwa [String.toList_append, Nat.toList_repr]

theorem compactItems_cons (v : Json) (vs : List Json) : compactItems (v :: vs) =
    compactChars v ++ vs.flatMap fun w => ',' :: compactChars w := by
  induction vs generalizing v with
  | nil => simp [compactItems]
  | cons w vs ih => rw [compactItems, ih, List.flatMap_cons]; rfl

theorem tokensOfItems_cons (v : Json) (vs : List Json) : tokensOfItems (v :: vs) =
    tokensOf v ++ vs.flatMap fun w => .comma :: tokensOf w := by
  induction vs generalizing v with
  | nil => simp [tokensOfItems]
  | cons w vs ih => rw [tokensOfItems, ih, List.flatMap_cons]; rfl

def memberChars (m : String × Json) : List Char := stringChars m.1 ++ ':' :: compactChars m.2

def memberTokens (m : String × Json) : List Token := .string m.1 :: .colon :: tokensOf m.2

theorem compactMembers_cons (m : String × Json) (ms : List (String × Json)) :
    compactMembers (m :: ms) = memberChars m ++ ms.flatMap fun m => ',' :: memberChars m := by
  induction ms generalizing m with
  | nil => simp [compactMembers, memberChars]
  | cons m' ms ih => rw [compactMembers, ih, List.flatMap_cons]; rfl

theorem tokensOfMembers_cons (m : String × Json) (ms : List (String × Json)) :
    tokensOfMembers (m :: ms) =
      memberTokens m ++ ms.flatMap fun m => .comma :: memberTokens m := by
  induction ms generalizing m with
  | nil => simp [tokensOfMembers, memberTokens]
  | cons m' ms ih => rw [tokensOfMembers, ih, List.flatMap_cons]; rfl

theorem Splits.separated {α : Type} {f : α → List Char} {g : α → List Token} {x : α} {xs : List α}
    (h : ∀ y ∈ x :: xs, Splits (f y) (g y)) :
    Splits (f x ++ xs.flatMap fun y => ',' :: f y) (g x ++ xs.flatMap fun y => .comma :: g y) := by
  induction xs generalizing x with
  | nil =>
    rw [List.flatMap_nil, List.append_nil, List.flatMap_nil, List.append_nil]
    exact h x List.mem_cons_self
  | cons y xs ih =>
    intro rest us hs hc
    rw [List.forall_mem_cons] at h
    have hrest := ih h.2 rest us hs hc
    have hcomma : Cuts (',' :: (f y ++ (xs.flatMap fun y => ',' :: f y)) ++ rest)
        (.comma :: (g y ++ (xs.flatMap fun y => .comma :: g y)) ++ us) :=
      .cons rfl rfl (by simp) hrest
    have := h.1 _ _ stops_comma hcomma
    simpa using this

theorem Splits.array (h : Splits cs ts) :
    Splits ('[' :: cs ++ [']']) (.leftBracket :: ts ++ [.rightBracket]) := by
  intro rest us hs hc
  have hclose : Cuts (']' :: rest) (.rightBracket :: us) := .cons rfl rfl (by simp) hc
  have hstop : Stops (']' :: rest) := stops_cons (by decide) (by decide) (by decide) (by decide)
  have hopen : Cuts ('[' :: (cs ++ ']' :: rest)) (.leftBracket :: (ts ++ .rightBracket :: us)) :=
    .cons rfl rfl (by simp) (h _ _ hstop hclose)
  simpa using hopen

theorem Splits.object (h : Splits cs ts) :
    Splits ('\x7b' :: cs ++ ['\x7d']) (.leftBrace :: ts ++ [.rightBrace]) := by
  intro rest us hs hc
  have hclose : Cuts ('\x7d' :: rest) (.rightBrace :: us) := .cons rfl rfl (by simp) hc
  have hstop : Stops ('\x7d' :: rest) :=
    stops_cons (by decide) (by decide) (by decide) (by decide)
  have hopen : Cuts ('\x7b' :: (cs ++ '\x7d' :: rest)) (.leftBrace :: (ts ++ .rightBrace :: us)) :=
    .cons rfl rfl (by simp) (h _ _ hstop hclose)
  simpa using hopen

theorem Splits.member {m : String × Json} (h : Splits (compactChars m.2) (tokensOf m.2)) :
    Splits (memberChars m) (memberTokens m) := by
  intro rest us hs hc
  have hcolon : Cuts (':' :: (compactChars m.2 ++ rest)) (.colon :: (tokensOf m.2 ++ us)) :=
    .cons rfl rfl (by simp) (h rest us hs hc)
  have := hcolon.string m.1
  simpa [memberChars, memberTokens] using this

/-- The text of a plain value is cut into its tokens. -/
theorem Plain.splits {v : Json} (h : Plain v) : Splits (compactChars v) (tokensOf v) := by
  induction h with
  | null => exact .literal (fun _ => rfl) (fun _ => rfl) (by decide)
  | bool b =>
    cases b with
    | true => exact .literal (fun _ => rfl) (fun _ => rfl) (by decide)
    | false => exact .literal (fun _ => rfl) (fun _ => rfl) (by decide)
  | int hmin hmax => exact .int hmin hmax
  | str s => exact fun _ _ _ hc => hc.string s
  | @arr items h ih =>
    rw [compactChars, tokensOf]
    refine .array ?_
    cases items with
    | nil => exact fun _ _ _ hc => hc
    | cons v vs =>
      rw [compactItems_cons, tokensOfItems_cons]
      exact .separated ih
  | @obj members h ih =>
    rw [compactChars, tokensOf]
    refine .object ?_
    cases members with
    | nil => exact fun _ _ _ hc => hc
    | cons m ms =>
      rw [compactMembers_cons, tokensOfMembers_cons]
      exact .separated fun m hm => .member (ih m hm)

theorem Plain.tokens_eq {v : Json} (h : Plain v) : tokens (compactChars v) = some (tokensOf v) := by
  have hc := h.splits [] [] stops_nil .nil
  rw [List.append_nil, List.append_nil] at hc
  exact hc.tokens_eq

end Values

end LabelGrammar.Json
