import SpriteStage.Json.Printer
import SpriteStage.Proofs.Json.Following

/-!
# What stands between the quotes

Two grammars of the text between the quotes of a string. `StringBody` lets every escape pass, as one
does who does not want the string. `Denotes` says which characters the text stands for, and so has
no place for the half of a surrogate pair that stands alone. Both kinds of reader find the closing
quote behind such a text: `StringBody.skipString`, `Denotes.readString`.
-/

namespace SpriteStage.Json

/-- What may stand between the quotes of a string, whatever its escapes stand for. -/
inductive StringBody : List Char → Prop
  | nil : StringBody []
  | plain {c : Char} {w : List Char} (hquote : c ≠ '"') (hslash : c ≠ '\\')
      (hcontrol : ¬ c.toNat < 0x20) (h : StringBody w) : StringBody (c :: w)
  | short {e c : Char} {w : List Char} (he : shortEscape? e = some c) (h : StringBody w) :
      StringBody ('\\' :: e :: w)
  | unit {a b c d : Char} {n : Nat} {w : List Char} (hn : codeUnit? a b c d = some n)
      (h : StringBody w) : StringBody ('\\' :: 'u' :: a :: b :: c :: d :: w)

/-- The characters that a text between quotes stands for. Each is written as it is, by a letter, by
its code unit or by the two halves of its surrogate pair. -/
inductive Denotes : List Char → List Char → Prop
  | nil : Denotes [] []
  | plain {c : Char} {w s : List Char} (hquote : c ≠ '"') (hslash : c ≠ '\\')
      (hcontrol : ¬ c.toNat < 0x20) (h : Denotes w s) : Denotes (c :: w) (c :: s)
  | short {e c : Char} {w s : List Char} (he : shortEscape? e = some c) (h : Denotes w s) :
      Denotes ('\\' :: e :: w) (c :: s)
  | unit {a b c d : Char} {n : Nat} {w s : List Char} (hn : codeUnit? a b c d = some n)
      (hlow : isLowSurrogate n = false) (hhigh : isHighSurrogate n = false) (h : Denotes w s) :
      Denotes ('\\' :: 'u' :: a :: b :: c :: d :: w) (Char.ofNat n :: s)
  | pair {a b c d a' b' c' d' : Char} {n m : Nat} {w s : List Char}
      (hn : codeUnit? a b c d = some n) (hhigh : isHighSurrogate n = true)
      (hm : codeUnit? a' b' c' d' = some m) (hlow : isLowSurrogate m = true) (h : Denotes w s) :
      Denotes ('\\' :: 'u' :: a :: b :: c :: d :: '\\' :: 'u' :: a' :: b' :: c' :: d' :: w)
        (Char.ofNat (0x10000 + (n - 0xD800) * 0x400 + (m - 0xDC00)) :: s)

variable {w s : List Char}

theorem Denotes.stringBody (h : Denotes w s) : StringBody w := by
  induction h with
  | nil => exact .nil
  | plain hquote hslash hcontrol _ ih => exact .plain hquote hslash hcontrol ih
  | short he _ ih => exact .short he ih
  | unit hn _ _ _ ih => exact .unit hn ih
  | pair hn _ hm _ _ ih => exact .unit hn (.unit hm ih)

theorem StringBody.skipString (h : StringBody w) (rest : List Char) :
    skipString (w ++ '"' :: rest) = .ok rest := by
  induction h with
  | nil => rfl
  | plain hquote hslash hcontrol _ ih => exact (skipString_plain hquote hslash hcontrol).trans ih
  | short he _ ih => exact (skipString_short he).trans ih
  | unit hn _ ih => exact (skipString_unit hn).trans ih

/-- No code unit is both the first half of a pair and the second. -/
theorem isLowSurrogate_of_high {n : Nat} (h : isHighSurrogate n = true) :
    isLowSurrogate n = false := by
  simp only [isHighSurrogate, Bool.and_eq_true, decide_eq_true_eq] at h
  simp [isLowSurrogate]
  omega

theorem readString_pair {a b c d a' b' c' d' : Char} {n m : Nat} {done cs : List Char}
    (hn : codeUnit? a b c d = some n) (hhigh : isHighSurrogate n = true)
    (hm : codeUnit? a' b' c' d' = some m) (hlow : isLowSurrogate m = true) :
    readString done
        ('\\' :: 'u' :: a :: b :: c :: d :: '\\' :: 'u' :: a' :: b' :: c' :: d' :: cs) =
      readString (Char.ofNat (0x10000 + (n - 0xD800) * 0x400 + (m - 0xDC00)) :: done) cs := by
  simp only [readString, hn, isLowSurrogate_of_high hhigh, hhigh, hm, hlow, Bool.false_eq_true,
    if_false, if_true]

theorem Denotes.readString (h : Denotes w s) (done rest : List Char) :
    readString done (w ++ '"' :: rest) = .ok (String.ofList (done.reverse ++ s)) := by
  induction h generalizing done with
  | nil => simp [Json.readString]
  | plain hquote hslash hcontrol _ ih =>
      exact (readString_plain hquote hslash hcontrol).trans ((ih _).trans (by simp))
  | short he _ ih => exact (readString_short he).trans ((ih _).trans (by simp))
  | unit hn hlow hhigh _ ih => exact (readString_unit hn hlow hhigh).trans ((ih _).trans (by simp))
  | pair hn hhigh hm hlow _ ih =>
      exact (readString_pair hn hhigh hm hlow).trans ((ih _).trans (by simp))

theorem lone_cons {c : Char} (h : c ≠ '\\') (cs : List Char) : Lone (c :: cs) := by
  rintro a b c' d r heq
  exact h (List.cons.inj heq).1

theorem lone_short {e c : Char} (h : shortEscape? e = some c) (cs : List Char) :
    Lone ('\\' :: e :: cs) := by
  rintro a b c' d r heq
  exact ne_u_of_shortEscape h (List.cons.inj (List.cons.inj heq).2).1

/-- What is read behind an opening quote is what the text denotes. A first half of a pair is read
together with the escape behind it, so the induction carries it along. -/
theorem StringBody.exists_denotes (h : StringBody w) :
    (∀ {done : List Char} {k : String}, Json.readString done (w ++ ['"']) = .ok k →
      ∃ s, Denotes w s ∧ k = String.ofList (done.reverse ++ s)) ∧
    ∀ {a b c d : Char} {n : Nat} {done : List Char} {k : String}, codeUnit? a b c d = some n →
      isHighSurrogate n = true →
      Json.readString done ('\\' :: 'u' :: a :: b :: c :: d :: (w ++ ['"'])) = .ok k →
        ∃ s, Denotes ('\\' :: 'u' :: a :: b :: c :: d :: w) s ∧
          k = String.ofList (done.reverse ++ s) := by
  have hlone {cs : List Char} {a b c d : Char} {n : Nat} {done : List Char} {k : String}
      (hcs : Lone cs) (hn : codeUnit? a b c d = some n) (hhigh : isHighSurrogate n = true) :
      Json.readString done ('\\' :: 'u' :: a :: b :: c :: d :: cs) ≠ .ok k := by
    rw [readString_lone hn (isLowSurrogate_of_high hhigh) hhigh hcs]
    exact nofun
  induction h with
  | nil =>
      refine ⟨fun hread => ⟨[], .nil, ?_⟩, fun hn hhigh hread => ?_⟩
      · rw [List.append_nil]
        exact (Except.ok.inj hread).symm
      · exact absurd hread (hlone (lone_cons (by decide) []) hn hhigh)
  | plain hquote hslash hcontrol _ ih =>
      refine ⟨fun hread => ?_, fun hn hhigh hread => ?_⟩
      · rw [List.cons_append, readString_plain hquote hslash hcontrol] at hread
        obtain ⟨s, hs, rfl⟩ := ih.1 hread
        exact ⟨_, .plain hquote hslash hcontrol hs, by simp⟩
      · exact absurd hread (hlone (lone_cons hslash _) hn hhigh)
  | short he _ ih =>
      refine ⟨fun hread => ?_, fun hn hhigh hread => ?_⟩
      · rw [List.cons_append, List.cons_append, readString_short he] at hread
        obtain ⟨s, hs, rfl⟩ := ih.1 hread
        exact ⟨_, .short he hs, by simp⟩
      · exact absurd hread (hlone (lone_short he _) hn hhigh)
  | @unit a b c d m w hm _ ih =>
      refine ⟨fun {done _} hread => ?_, fun {_ _ _ _ _ done _} hn hhigh hread => ?_⟩
      · simp only [List.cons_append] at hread
        by_cases hlow : isLowSurrogate m = true
        · simp [Json.readString, hm, hlow] at hread
        by_cases hhigh : isHighSurrogate m = true
        · exact ih.2 hm hhigh hread
        · rw [Bool.not_eq_true] at hlow hhigh
          rw [readString_unit hm hlow hhigh] at hread
          obtain ⟨s, hs, rfl⟩ := ih.1 hread
          exact ⟨_, .unit hm hlow hhigh hs, by simp⟩
      · simp only [List.cons_append] at hread
        by_cases hlow : isLowSurrogate m = true
        · rw [readString_pair hn hhigh hm hlow] at hread
          obtain ⟨s, hs, rfl⟩ := ih.1 hread
          exact ⟨_, .pair hn hhigh hm hlow hs, by simp⟩
        · simp [Json.readString, hn, isLowSurrogate_of_high hhigh, hhigh, hm, hlow] at hread

theorem StringBody.tokenAt (h : StringBody w) (rest : List Char) :
    tokenAt '"' (w ++ '"' :: rest) = (.str ⟨readString [] (w ++ ['"']), .ok ()⟩, some rest) := by
  have hread : readString [] (w ++ '"' :: rest) = readString [] (w ++ ['"']) := by
    rw [← readString_append (h.skipString []) [] rest, List.append_assoc]
    rfl
  change stringToken _ = _
  simp [stringToken, h.skipString, hread]

/-- A text is the string `k` between quotes. -/
def Quotes (text : List Char) (k : String) : Prop :=
  ∃ w, Denotes w k.toList ∧ text = '"' :: w ++ ['"']

/-- A text between quotes is read as the string `k` if it is that string. -/
theorem StringBody.quotes_iff {k : String} (h : StringBody w) :
    readString [] (w ++ ['"']) = .ok k ↔ Quotes ('"' :: w ++ ['"']) k := by
  constructor
  · intro hread
    obtain ⟨s, hs, rfl⟩ := h.exists_denotes.1 hread
    exact ⟨w, by simpa using hs, rfl⟩
  · rintro ⟨w', hw', heq⟩
    obtain rfl : w = w' := by simpa using heq
    simpa using hw'.readString [] []

/-! ## Strings as they are printed -/

theorem hexDigit?_hexDigit : ∀ n < 16, hexDigit? (hexDigit n) = some n := by decide

theorem codeUnit?_control {n : Nat} (h : n < 256) :
    codeUnit? '0' '0' (hexDigit (n / 16)) (hexDigit (n % 16)) = some n := by
  have hzero : hexDigit? '0' = some 0 := rfl
  simp only [codeUnit?, hzero, hexDigit?_hexDigit (n / 16) (by omega),
    hexDigit?_hexDigit (n % 16) (by omega), Option.bind_eq_bind, Option.bind_some]
  exact congrArg some (by omega)

theorem denotes_escapeChar (c : Char) (h : Denotes w s) :
    Denotes (escapeChar c ++ w) (c :: s) := by
  unfold escapeChar
  split_ifs with hquote hslash hb hf hn hr ht hcontrol
  · exact .short (by rw [hquote]; rfl) h
  · exact .short (by rw [hslash]; rfl) h
  · exact .short (by rw [hb]; rfl) h
  · exact .short (by rw [hf]; rfl) h
  · exact .short (by rw [hn]; rfl) h
  · exact .short (by rw [hr]; rfl) h
  · exact .short (by rw [ht]; rfl) h
  · -- a control character is no half of a pair
    have hlow : isLowSurrogate c.toNat = false := by simp [isLowSurrogate]; omega
    have hhigh : isHighSurrogate c.toNat = false := by simp [isHighSurrogate]; omega
    have hunit := Denotes.unit (codeUnit?_control (n := c.toNat) (by omega)) hlow hhigh h
    rwa [Char.ofNat_toNat] at hunit
  · exact .plain hquote hslash hcontrol h

theorem denotes_flatMap_escapeChar (cs : List Char) : Denotes (cs.flatMap escapeChar) cs := by
  induction cs with
  | nil => exact .nil
  | cons c cs ih => exact denotes_escapeChar c ih

/-- What is printed for a string is that string between quotes. -/
theorem quotes_quoted (k : String) : Quotes (quoted k) k :=
  ⟨_, denotes_flatMap_escapeChar k.toList, rfl⟩

end SpriteStage.Json
