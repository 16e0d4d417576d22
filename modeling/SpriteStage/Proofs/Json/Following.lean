import Mathlib.Tactic.SplitIfs
import SpriteStage.Json.Token

/-!
# What follows a token

Where a token ends does not depend on what follows it, except that the digits, the point and the
exponent of a number go on as long as they can. So a text is cut the same way whatever stands behind
it, as long as that does not continue its last token: `tokens_append`.
-/

namespace SpriteStage.Json

def endsNumber : List Char → Bool
  | [] => true
  | c :: _ => !(c.isDigit || c = '.' || c = 'e' || c = 'E')

/-- Whether a text may stand behind a token without changing it. -/
def Token.admits : Token → List Char → Bool
  | .broken _, _ => false
  | .num n, u => n.skip.isOk && endsNumber u
  | .str s, _ => s.skip.isOk
  | _, _ => true

/-- Two readers in a row have a result when the first has one and the second has one for it. -/
theorem bind_eq_ok {α β : Type} {x : Except Fault α} {k : α → Except Fault β} {b : β} :
    (x >>= k) = .ok b ↔ ∃ a, x = .ok a ∧ k a = .ok b := by
  cases x with
  | error f => exact ⟨nofun, nofun⟩
  | ok a => exact ⟨fun h => ⟨a, rfl, h⟩, fun ⟨_, ha, h⟩ => by cases ha; exact h⟩

variable {cs ds r u : List Char}

/-! ## Words -/

theorem expectWord_append {es : List Char} (h : expectWord es cs = .ok r) (u : List Char) :
    expectWord es (cs ++ u) = .ok (r ++ u) := by
  fun_induction expectWord es cs with
  | case1 cs => cases h; unfold expectWord; rfl
  | case2 => cases h
  | case3 es c cs ih => simpa [expectWord] using ih h
  | case4 => cases h

/-! ## Numbers -/

theorem isDigit_of_endsNumber {c : Char} (h : endsNumber (c :: u) = true) :
    c.isDigit = false ∧ c ≠ '.' ∧ c ≠ 'e' ∧ c ≠ 'E' := by
  simpa [endsNumber, not_or, and_assoc] using h

theorem splitDigits_append (h : Decimal.splitDigits cs = (ds, r))
    (hu : r ≠ [] ∨ endsNumber u = true) : Decimal.splitDigits (cs ++ u) = (ds, r ++ u) := by
  simp only [Decimal.splitDigits, Prod.mk.injEq] at h ⊢
  obtain ⟨rfl, rfl⟩ := h
  induction cs with
  | nil =>
      cases u with
      | nil => exact ⟨rfl, rfl⟩
      | cons c u =>
          have hc := (isDigit_of_endsNumber (hu.resolve_left (· rfl))).1
          simp [hc]
  | cons c cs ih =>
      cases hc : c.isDigit with
      | true =>
          simp only [List.dropWhile_cons, hc, if_true] at hu
          simpa [hc] using ih hu
      | false => simp [hc]

theorem digits1_eq_ok : digits1 cs = .ok (ds, r) ↔
    Decimal.splitDigits cs = (ds, r) ∧ ds ≠ [] := by
  rcases hs : Decimal.splitDigits cs with ⟨_ | ⟨d, ds'⟩, r'⟩
  · cases r' <;> simp +contextual [digits1, hs, eq_comm]
  · constructor
    · intro h
      simp only [digits1, hs, Except.ok.injEq, Prod.mk.injEq] at h
      obtain ⟨rfl, rfl⟩ := h
      exact ⟨rfl, nofun⟩
    · rintro ⟨h, -⟩
      cases h
      simp only [digits1, hs]

theorem digits1_append (h : digits1 cs = .ok (ds, r)) (hu : r ≠ [] ∨ endsNumber u = true) :
    digits1 (cs ++ u) = .ok (ds, r ++ u) := by
  obtain ⟨hsplit, hne⟩ := digits1_eq_ok.mp h
  exact digits1_eq_ok.mpr ⟨splitDigits_append hsplit hu, hne⟩

theorem wholePart_eq_ok : wholePart cs = .ok (ds, r) ↔
    digits1 cs = .ok (ds, r) ∧ ∀ d ds', ds ≠ '0' :: d :: ds' := by
  unfold wholePart
  split
  · rename_i d ds' r' h
    rw [h]
    refine ⟨nofun, ?_⟩
    rintro ⟨heq, hne⟩
    cases heq
    exact absurd rfl (hne d ds')
  · rename_i hne
    refine ⟨fun h => ⟨h, ?_⟩, And.left⟩
    rintro d ds' rfl
    exact hne d ds' r h

theorem wholePart_append (h : wholePart cs = .ok (ds, r)) (hu : r ≠ [] ∨ endsNumber u = true) :
    wholePart (cs ++ u) = .ok (ds, r ++ u) := by
  obtain ⟨hdigits, hzero⟩ := wholePart_eq_ok.mp h
  exact wholePart_eq_ok.mpr ⟨digits1_append hdigits hu, hzero⟩

theorem fractionPart_of_ne {c : Char} (h : c ≠ '.') (cs : List Char) :
    fractionPart (c :: cs) = .ok (none, c :: cs) := by
  unfold fractionPart
  split
  · rename_i heq
    cases heq
    exact absurd rfl h
  · rfl

theorem fractionPart_append {f : Option (List Char)} (h : fractionPart cs = .ok (f, r))
    (hu : r ≠ [] ∨ endsNumber u = true) : fractionPart (cs ++ u) = .ok (f, r ++ u) := by
  cases cs with
  | nil =>
      cases h
      cases u with
      | nil => rfl
      | cons c u =>
          exact fractionPart_of_ne (isDigit_of_endsNumber (hu.resolve_left (· rfl))).2.1 u
  | cons c cs =>
      by_cases hc : c = '.'
      · subst hc
        simp only [fractionPart, List.cons_append] at h ⊢
        cases hd : digits1 cs with
        | error f => rw [hd] at h; cases h
        | ok p =>
            rw [hd] at h
            cases h
            rw [digits1_append hd hu]
            rfl
      · rw [fractionPart_of_ne hc] at h
        cases h
        exact fractionPart_of_ne hc (cs ++ u)

theorem splitSign_append (h : cs ≠ []) (u : List Char) :
    Decimal.splitSign (cs ++ u) =
      ((Decimal.splitSign cs).1, (Decimal.splitSign cs).2 ++ u) := by
  cases cs with
  | nil => exact absurd rfl h
  | cons c cs =>
      unfold Decimal.splitSign
      simp only [List.cons_append]
      split <;> simp_all

def marksExponent (c : Char) : Bool := c = 'e' || c = 'E'

theorem exponentPart_of_not_mark {c : Char} (h : marksExponent c = false) (cs : List Char) :
    exponentPart (c :: cs) = .ok (none, c :: cs) := by
  unfold exponentPart
  exact if_neg (by simpa [marksExponent] using h)

theorem exponentPart_of_mark {c : Char} (h : marksExponent c = true) (cs : List Char) :
    exponentPart (c :: cs) = (digits1 (Decimal.splitSign cs).2).map fun p =>
      (some (if (Decimal.splitSign cs).1 then -(Decimal.ofDigits p.1 : Int)
        else Decimal.ofDigits p.1), p.2) := by
  unfold exponentPart
  exact if_pos h

theorem exponentPart_append {e : Option Int} (h : exponentPart cs = .ok (e, r))
    (hu : r ≠ [] ∨ endsNumber u = true) : exponentPart (cs ++ u) = .ok (e, r ++ u) := by
  cases cs with
  | nil =>
      cases h
      cases u with
      | nil => rfl
      | cons c u =>
          have hc := (isDigit_of_endsNumber (hu.resolve_left (· rfl))).2.2
          exact exponentPart_of_not_mark (by simpa [marksExponent] using hc) u
  | cons c cs =>
      cases hc : marksExponent c with
      | false =>
          rw [exponentPart_of_not_mark hc] at h
          cases h
          exact exponentPart_of_not_mark hc (cs ++ u)
      | true =>
          rw [exponentPart_of_mark hc] at h
          cases hd : digits1 (Decimal.splitSign cs).2 with
          | error f => rw [hd] at h; cases h
          | ok p =>
              have hne : cs ≠ [] := by
                rintro rfl
                cases hd
              rw [hd] at h
              cases h
              rw [List.cons_append, exponentPart_of_mark hc, splitSign_append hne,
                digits1_append hd hu]
              rfl

theorem numeral_eq_ok {negative : Bool} {n : Numeral} : numeral negative cs = .ok (n, r) ↔
    ∃ whole r₁ fraction r₂ exponent, wholePart cs = .ok (whole, r₁) ∧
      fractionPart r₁ = .ok (fraction, r₂) ∧ exponentPart r₂ = .ok (exponent, r) ∧
        n = ⟨negative, whole, fraction, exponent⟩ := by
  simp only [numeral, bind_eq_ok, Prod.exists, pure, Except.pure, Except.ok.injEq, Prod.mk.injEq]
  constructor
  · rintro ⟨whole, r₁, hw, fraction, r₂, hf, exponent, r', he, rfl, rfl⟩
    exact ⟨whole, r₁, fraction, r₂, exponent, hw, hf, he, rfl⟩
  · rintro ⟨whole, r₁, fraction, r₂, exponent, hw, hf, he, rfl⟩
    exact ⟨whole, r₁, hw, fraction, r₂, hf, exponent, r, he, rfl, rfl⟩

theorem numeral_append {negative : Bool} {n : Numeral} (h : numeral negative cs = .ok (n, r))
    (hu : r ≠ [] ∨ endsNumber u = true) : numeral negative (cs ++ u) = .ok (n, r ++ u) := by
  obtain ⟨whole, r₁, fraction, r₂, exponent, hw, hf, he, rfl⟩ := numeral_eq_ok.mp h
  -- what is left behind a part is nothing only if nothing was left before it
  have hu₂ : r₂ ≠ [] ∨ endsNumber u = true := hu.imp_left fun hr hnil => by
    rw [hnil] at he
    cases he
    exact hr rfl
  have hu₁ : r₁ ≠ [] ∨ endsNumber u = true := hu₂.imp_left fun hr hnil => by
    rw [hnil] at hf
    cases hf
    exact hr rfl
  exact numeral_eq_ok.mpr ⟨whole, r₁ ++ u, fraction, r₂ ++ u, exponent, wholePart_append hw hu₁,
    fractionPart_append hf hu₂, exponentPart_append he hu, rfl⟩

/-! ## Strings -/

section Strings

variable {a b c d e : Char} {n : Nat} {done : List Char}

theorem ne_u_of_shortEscape (h : shortEscape? e = some c) : e ≠ 'u' := by
  rintro rfl
  cases h

theorem skipString_plain (hquote : c ≠ '"') (hslash : c ≠ '\\') (h : ¬ c.toNat < 0x20) :
    skipString (c :: cs) = skipString cs := by
  rw [skipString, if_neg h] <;> assumption

theorem skipString_short (h : shortEscape? e = some c) :
    skipString ('\\' :: e :: cs) = skipString cs := by
  have hu := ne_u_of_shortEscape h
  simp [skipString, hu, h]

theorem skipString_unit (h : codeUnit? a b c d = some n) :
    skipString ('\\' :: 'u' :: a :: b :: c :: d :: cs) = skipString cs := by
  simp only [skipString, h]

/-- A code unit escape in a string that ends has its four characters. -/
theorem exists_of_skipString_unit (h : skipString ('\\' :: 'u' :: cs) = .ok r) :
    ∃ a b c d rest, cs = a :: b :: c :: d :: rest := by
  rcases cs with _ | ⟨a, _ | ⟨b, _ | ⟨c, _ | ⟨d, rest⟩⟩⟩⟩
  · cases h
  · cases h
  · cases h
  · cases h
  · exact ⟨a, b, c, d, rest, rfl⟩

theorem readString_plain (hquote : c ≠ '"') (hslash : c ≠ '\\') (h : ¬ c.toNat < 0x20) :
    readString done (c :: cs) = readString (c :: done) cs := by
  rw [readString, if_neg h] <;> assumption

theorem readString_short (h : shortEscape? e = some c) :
    readString done ('\\' :: e :: cs) = readString (c :: done) cs := by
  have hu := ne_u_of_shortEscape h
  simp [readString, hu, h]

theorem readString_unit (h : codeUnit? a b c d = some n) (hlow : isLowSurrogate n = false)
    (hhigh : isHighSurrogate n = false) :
    readString done ('\\' :: 'u' :: a :: b :: c :: d :: cs) =
      readString (Char.ofNat n :: done) cs := by
  simp only [readString, h, hlow, hhigh, Bool.false_eq_true, if_false]

/-- A text does not go on with an escape for the second half of a pair. -/
def Lone (cs : List Char) : Prop :=
  ∀ a b c d r, cs ≠ '\\' :: 'u' :: a :: b :: c :: d :: r

theorem readString_lone (h : codeUnit? a b c d = some n) (hlow : isLowSurrogate n = false)
    (hhigh : isHighSurrogate n = true) (hlone : Lone cs) :
    readString done ('\\' :: 'u' :: a :: b :: c :: d :: cs) = .error (pairFault cs) := by
  simp only [readString, h, hlow, hhigh, Bool.false_eq_true, if_false, if_true]
  split
  · exact absurd rfl (hlone _ _ _ _ _)
  · rfl

/-- In a string that ends, a first half that stands alone does so whatever follows the string. -/
theorem lone_append (h : skipString cs = .ok r) (hlone : Lone cs) (u : List Char) :
    Lone (cs ++ u) ∧ pairFault (cs ++ u) = pairFault cs := by
  cases cs with
  | nil => cases h
  | cons c cs =>
      by_cases hslash : c = '\\'
      · subst hslash
        cases cs with
        | nil => cases h
        | cons e cs =>
            have hu : e ≠ 'u' := by
              rintro rfl
              obtain ⟨a, b, c, d, rest, rfl⟩ := exists_of_skipString_unit h
              exact hlone a b c d rest rfl
            simp [Lone, pairFault, hu]
      · simp [Lone, pairFault, hslash]

end Strings

theorem skipString_append (h : skipString cs = .ok r) (u : List Char) :
    skipString (cs ++ u) = .ok (r ++ u) := by
  fun_induction skipString cs with
  | case1 => cases h
  | case2 cs => cases h; rfl
  | case3 => cases h
  | case4 => cases h
  | case5 a b c d r' n hn ih => exact (skipString_unit hn).trans (ih h)
  | case6 => cases h
  | case7 e r' _ _ c hc ih => exact (skipString_short hc).trans (ih h)
  | case8 => cases h
  | case9 => cases h
  | case10 c cs hquote hslash hc ih => exact (skipString_plain hquote hslash hc).trans (ih h)

theorem readString_append (h : skipString cs = .ok r) (done u : List Char) :
    readString done (cs ++ u) = readString done cs := by
  fun_induction readString done cs with
  | case1 => cases h
  | case2 => rfl
  | case3 => cases h
  | case4 done a b c d r' hnone => simp only [skipString, hnone] at h; cases h
  | case5 done a b c d r' n hn hlow =>
      simp only [readString, List.cons_append, hn, hlow, if_true]
  | case6 done a b c d n hn hlow hhigh a' b' c' d' r' hnone =>
      rw [skipString_unit hn] at h
      simp only [skipString, hnone] at h
      cases h
  | case7 done a b c d n hn hlow hhigh a' b' c' d' r' m hm hlow' ih =>
      rw [skipString_unit hn, skipString_unit hm] at h
      simp only [readString, List.cons_append, hn, hlow, hhigh, hm, hlow',
        Bool.false_eq_true, if_true, if_false, ih h]
  | case8 done a b c d n hn hlow hhigh a' b' c' d' r' m hm hlow' =>
      simp only [readString, List.cons_append, hn, hlow, hhigh, hm, hlow',
        Bool.false_eq_true, if_true, if_false]
  | case9 done a b c d n hn hlow hhigh other hlone =>
      rw [skipString_unit hn] at h
      obtain ⟨hlone', hfault⟩ := lone_append h (fun _ _ _ _ _ => hlone _ _ _ _ _) u
      exact (readString_lone hn (by simpa using hlow) hhigh hlone').trans (congrArg _ hfault)
  | case10 done a b c d r' n hn hlow hhigh ih =>
      rw [skipString_unit hn] at h
      exact (readString_unit hn (by simpa using hlow) (by simpa using hhigh)).trans (ih h)
  | case11 done r' hshort =>
      obtain ⟨a, b, c, d, rest, rfl⟩ := exists_of_skipString_unit h
      exact (hshort a b c d rest rfl).elim
  | case12 done e r' _ _ c hc ih =>
      rw [skipString_short hc] at h
      exact (readString_short hc).trans (ih h)
  | case13 done e r' hnot hu hnone =>
      simp [skipString, hnone] at h
  | case14 done c cs hquote hslash hc =>
      rw [skipString, if_pos hc] at h
      · cases h
      · exact hquote
      · exact hslash
  | case15 done c cs hquote hslash hc ih =>
      rw [skipString_plain hquote hslash hc] at h
      exact (readString_plain hquote hslash hc).trans (ih h)

/-! ## Tokens -/

theorem wordToken_append {es : List Char} {t t' : Token} (h : wordToken t es cs = (t', some r))
    (u : List Char) : wordToken t es (cs ++ u) = (t', some (r ++ u)) := by
  unfold wordToken at h ⊢
  split at h
  · rename_i hword
    cases h
    rw [expectWord_append hword]
  · cases h

theorem numberToken_append {negative : Bool} {t : Token}
    (h : numberToken negative cs = (t, some r)) (hu : r ≠ [] ∨ t.admits u = true) :
    numberToken negative (cs ++ u) = (t, some (r ++ u)) := by
  unfold numberToken at h ⊢
  split at h
  · rename_i n r' hn
    cases h
    rw [numeral_append hn (by simpa [Token.admits, Except.isOk, Except.toBool] using hu)]
  · cases h

theorem stringToken_append {t : Token} (h : stringToken cs = (t, some r)) (u : List Char) :
    stringToken (cs ++ u) = (t, some (r ++ u)) := by
  unfold stringToken at h ⊢
  split at h
  · rename_i hskip
    cases h
    rw [skipString_append hskip, readString_append hskip]
  · cases h

theorem tokenAt_append {c : Char} {t : Token} (h : tokenAt c cs = (t, some r))
    (hu : r ≠ [] ∨ t.admits u = true) : tokenAt c (cs ++ u) = (t, some (r ++ u)) := by
  unfold tokenAt at h ⊢
  cases hp : punctuation? c with
  | some t' =>
      simp only [hp] at h ⊢
      cases h
      rfl
  | none =>
      simp only [hp] at h ⊢
      split_ifs at h ⊢
      · exact stringToken_append h u
      · exact wordToken_append h u
      · exact wordToken_append h u
      · exact wordToken_append h u
      · exact numberToken_append h hu
      · exact numberToken_append h hu
      · cases h

/-- The cutting stops at a token that admits nothing behind it. -/
theorem admits_of_last {c : Char} {t : Token} (h : tokenAt c cs = (t, none)) (u : List Char) :
    t.admits u = false := by
  have hword {es : List Char} {t' : Token} (h : wordToken t' es cs = (t, none)) :
      t.admits u = false := by
    unfold wordToken at h
    split at h <;> cases h
    rfl
  have hnumber {negative : Bool} {cs : List Char} (h : numberToken negative cs = (t, none)) :
      t.admits u = false := by
    unfold numberToken at h
    split at h <;> cases h
    rfl
  unfold tokenAt at h
  cases hp : punctuation? c with
  | some t' => simp only [hp] at h; cases h
  | none =>
      simp only [hp] at h
      split_ifs at h
      · unfold stringToken at h
        split at h <;> cases h
        rfl
      · exact hword h
      · exact hword h
      · exact hword h
      · exact hnumber h
      · exact hnumber h
      · cases h
        rfl

/-! ## Texts -/

/-- A text is nothing, begins with space, or begins with a token. -/
theorem tokens_induction {P : List Char → Prop} (nil : P [])
    (space : ∀ c cs, isSpace c = true → P cs → P (c :: cs))
    (last : ∀ c t cs, isSpace c = false → tokenAt c cs = (t, none) → P (c :: cs))
    (token : ∀ c t cs r, isSpace c = false → tokenAt c cs = (t, some r) → P r → P (c :: cs))
    (cs : List Char) : P cs := by
  induction hn : cs.length using Nat.strongRecOn generalizing cs with
  | ind n ih =>
      cases cs with
      | nil => exact nil
      | cons c cs =>
          have hlt : cs.length < n := by rw [← hn]; exact Nat.lt_succ_self _
          cases hs : isSpace c with
          | true => exact space c cs hs (ih _ hlt cs rfl)
          | false =>
              rcases ht : tokenAt c cs with ⟨t, _ | r⟩
              · exact last c t cs hs ht
              · have hr := Nat.lt_of_le_of_lt (length_of_tokenAt ht) hlt
                exact token c t cs r hs ht (ih _ hr r rfl)

/-- A text without tokens is space. -/
theorem isEmpty_tokens : (tokens cs).isEmpty = cs.all isSpace := by
  induction cs using tokens_induction with
  | nil => simp
  | space c cs hs ih => simp [tokens_cons_space hs, hs, ih]
  | last c t cs hs ht => simp [tokens_cons_last hs ht, hs]
  | token c t cs r hs ht ih => simp [tokens_cons hs ht, hs]

/-- A text is cut the same way whatever follows, unless that continues its last token. -/
theorem tokens_append (h : ∀ t, (tokens cs).getLast? = some t → t.admits u = true) :
    tokens (cs ++ u) = tokens cs ++ tokens u := by
  induction cs using tokens_induction with
  | nil => simp
  | space c cs hs ih =>
      rw [tokens_cons_space hs] at h ⊢
      rw [List.cons_append, tokens_cons_space hs, ih h]
  | last c t cs hs ht =>
      rw [tokens_cons_last hs ht] at h
      exact absurd (h t rfl) (by simp [admits_of_last ht])
  | token c t cs r hs ht ih =>
      rw [tokens_cons hs ht] at h ⊢
      have hlast (t' : Token) (ht' : (tokens r).getLast? = some t') :
          (t :: tokens r).getLast? = some t' := by
        rw [List.getLast?_cons, ht']
        rfl
      have hu : r ≠ [] ∨ t.admits u = true := by
        by_cases hr : r = []
        · subst hr
          exact .inr (h t (by simp))
        · exact .inl hr
      rw [List.cons_append, tokens_cons hs (tokenAt_append ht hu),
        ih fun t' ht' => h t' (hlast t' ht'), List.cons_append]

end SpriteStage.Json
