import SpriteStage.Decimal.Numeral
import SpriteStage.Decimal.Scaling
import SpriteStage.Json.Value

/-!
# JSON tokens

A text is cut into tokens. Whether a string or a number is acceptable depends on who looks at it: a
reader that wants its value checks the range of numbers and the pairing of surrogate escapes, one
that passes over a value it does not know checks the grammar only. So such a token holds a `Scan`,
the findings of both. Where a token cannot even be passed over, the cutting stops: nothing that
follows is ever looked at.
-/

namespace SpriteStage.Json

inductive Fault where
  /-- The text ends inside a value. -/
  | ended
  /-- The text is not JSON. -/
  | malformed
  /-- The text is JSON so far, and not what is wanted here. -/
  | mismatch
deriving DecidableEq, Repr

/-- What the two kinds of reader find at a string or a number. -/
structure Scan (α : Type) where
  /-- The value, for a reader that wants it. -/
  read : Except Fault α
  /-- Whether a reader that does not want it passes over it. -/
  skip : Except Fault Unit

inductive Token where
  | openArray
  | closeArray
  | openObject
  | closeObject
  | comma
  | colon
  | null
  | bool (b : Bool)
  | num (n : Scan Number)
  | str (s : Scan String)
  /-- No token begins here, or a word is misspelled. -/
  | broken (f : Fault)

def isSpace (c : Char) : Bool := c = ' ' || c = '\t' || c = '\n' || c = '\r'

/-! ## Words -/

def expectWord : (expected : List Char) → List Char → Except Fault (List Char)
  | [], cs => .ok cs
  | _ :: _, [] => .error .ended
  | e :: es, c :: cs => if c = e then expectWord es cs else .error .malformed

theorem length_of_expectWord {es cs r : List Char} (h : expectWord es cs = .ok r) :
    r.length ≤ cs.length := by
  fun_induction expectWord es cs with
  | case1 cs => cases h; exact Nat.le_refl _
  | case2 => cases h
  | case3 es c cs ih => exact Nat.le_succ_of_le (ih h)
  | case4 => cases h

/-! ## Numbers -/

structure Numeral where
  negative : Bool
  whole : List Char
  fraction : Option (List Char)
  exponent : Option Int

/-- The digits in front, at least one. A reader that wants them calls it the end of the text when
there is nothing at all. -/
def digits1 (cs : List Char) : Except Fault (List Char × List Char) :=
  match Decimal.splitDigits cs with
  | ([], []) => .error .ended
  | ([], _ :: _) => .error .malformed
  | (ds, rest) => .ok (ds, rest)

/-- The digits before the point; a zero in front stands alone. -/
def wholePart (cs : List Char) : Except Fault (List Char × List Char) :=
  match digits1 cs with
  | .ok ('0' :: _ :: _, _) => .error .malformed
  | r => r

def fractionPart : List Char → Except Fault (Option (List Char) × List Char)
  | '.' :: cs => (digits1 cs).map fun (ds, rest) => (some ds, rest)
  | cs => .ok (none, cs)

def exponentPart : List Char → Except Fault (Option Int × List Char)
  | [] => .ok (none, [])
  | c :: cs =>
    if c = 'e' || c = 'E' then
      let (negative, body) := Decimal.splitSign cs
      (digits1 body).map fun (ds, rest) =>
        let n : Int := Decimal.ofDigits ds
        (some (if negative then -n else n), rest)
    else .ok (none, c :: cs)

def numeral (negative : Bool) (cs : List Char) : Except Fault (Numeral × List Char) := do
  let (whole, r) ← wholePart cs
  let (fraction, r) ← fractionPart r
  let (exponent, r) ← exponentPart r
  return (⟨negative, whole, fraction, exponent⟩, r)

/-- The value of a number: a whole number when it is written as one and fits sixty-four bits, with
a sign or without; else a double, which must be finite. Minus zero is a double. Digits that do not
fit count as zeros. -/
def Numeral.number (n : Numeral) : Except Fault Number :=
  let (k, excess) := Decimal.fitDigits 0 n.whole
  let isWhole := n.fraction.isNone && n.exponent.isNone && excess.isEmpty
  if isWhole && !n.negative then .ok (.int k)
  else if isWhole && k ≠ 0 && k ≤ Nat.pow 2 63 then .ok (.int (-k))
  else
    let fraction := n.fraction.getD []
    let (k, left) := Decimal.fitDigits k fraction
    let power : Int := excess.length + left.length - fraction.length + n.exponent.getD 0
    match Decimal.Binary.scaled? n.negative k power with
    | some x => .ok (.float x.toFloat)
    | none => .error .malformed

theorem length_splitDigits (cs : List Char) :
    (Decimal.splitDigits cs).1.length + (Decimal.splitDigits cs).2.length = cs.length := by
  simp only [Decimal.splitDigits]
  rw [← List.length_append, List.takeWhile_append_dropWhile]

theorem length_of_digits1 {cs ds r : List Char} (h : digits1 cs = .ok (ds, r)) :
    r.length < cs.length := by
  have hl := length_splitDigits cs
  unfold digits1 at h
  split at h
  · cases h
  · cases h
  · next ds' rest' hne _ heq =>
    cases h
    rw [heq] at hl
    cases ds with
    | nil => cases r <;> simp_all
    | cons d ds => simp only [List.length_cons] at hl; omega

theorem length_of_wholePart {cs ds r : List Char} (h : wholePart cs = .ok (ds, r)) :
    r.length < cs.length := by
  unfold wholePart at h
  split at h
  · cases h
  · exact length_of_digits1 h

theorem length_of_fractionPart {cs r : List Char} {ds : Option (List Char)}
    (h : fractionPart cs = .ok (ds, r)) : r.length ≤ cs.length := by
  unfold fractionPart at h
  split at h
  · next cs' =>
    cases hd : digits1 cs' with
    | error f => rw [hd] at h; cases h
    | ok p =>
      rw [hd] at h
      cases h
      have := @length_of_digits1 cs' p.1 p.2 hd
      simp only [List.length_cons]
      omega
  · cases h; exact Nat.le_refl _

theorem length_splitSign (cs : List Char) : (Decimal.splitSign cs).2.length ≤ cs.length := by
  unfold Decimal.splitSign
  split <;> simp

theorem length_of_exponentPart {cs r : List Char} {e : Option Int}
    (h : exponentPart cs = .ok (e, r)) : r.length ≤ cs.length := by
  unfold exponentPart at h
  split at h
  · cases h; exact Nat.le_refl _
  · next c cs' =>
    split at h
    · have hs := length_splitSign cs'
      cases hd : digits1 (Decimal.splitSign cs').2 with
      | error f => simp only [hd] at h; cases h
      | ok p =>
        simp only [hd] at h
        cases h
        have := @length_of_digits1 _ p.1 p.2 hd
        simp only [List.length_cons]
        omega
    · cases h; exact Nat.le_refl _

theorem length_of_numeral {negative : Bool} {cs r : List Char} {n : Numeral}
    (h : numeral negative cs = .ok (n, r)) : r.length < cs.length := by
  unfold numeral at h
  cases hw : wholePart cs with
  | error f => rw [hw] at h; cases h
  | ok p =>
    cases hf : fractionPart p.2 with
    | error f =>
      rw [hw] at h
      simp only [bind, Except.bind, hf] at h
      cases h
    | ok q =>
      cases he : exponentPart q.2 with
      | error f =>
        rw [hw] at h
        simp only [bind, Except.bind, hf, he] at h
        cases h
      | ok s =>
        rw [hw] at h
        simp only [bind, Except.bind, hf, he] at h
        cases h
        have h1 := @length_of_wholePart _ p.1 p.2 hw
        have h2 := @length_of_fractionPart _ q.2 q.1 hf
        have h3 := @length_of_exponentPart _ s.2 s.1 he
        omega

/-! ## Strings -/

def hexDigit? (c : Char) : Option Nat :=
  if '0' ≤ c && c ≤ '9' then some (c.toNat - '0'.toNat)
  else if 'a' ≤ c && c ≤ 'f' then some (c.toNat - 'a'.toNat + 10)
  else if 'A' ≤ c && c ≤ 'F' then some (c.toNat - 'A'.toNat + 10)
  else none

def codeUnit? (a b c d : Char) : Option Nat := do
  let a ← hexDigit? a
  let b ← hexDigit? b
  let c ← hexDigit? c
  let d ← hexDigit? d
  return ((a * 16 + b) * 16 + c) * 16 + d

/-- What is wrong with a text that does not go on with four hexadecimal digits: it ends when it has
not even four bytes left. -/
def codeUnitFault (cs : List Char) : Fault :=
  if (cs.take 4).foldl (fun n c => n + c.utf8Size) 0 < 4 then .ended else .malformed

def shortEscape? : Char → Option Char
  | '"' => some '"'
  | '\\' => some '\\'
  | '/' => some '/'
  | 'b' => some '\x08'
  | 'f' => some '\x0c'
  | 'n' => some '\n'
  | 'r' => some '\r'
  | 't' => some '\t'
  | _ => none

def isHighSurrogate (n : Nat) : Bool := 0xD800 ≤ n && n < 0xDC00

def isLowSurrogate (n : Nat) : Bool := 0xDC00 ≤ n && n < 0xE000

def pairFault : List Char → Fault
  | [] => .ended
  | '\\' :: [] => .ended
  | '\\' :: 'u' :: cs => codeUnitFault cs
  | _ => .malformed

/-- The characters up to the closing quote, in front of those already read (newest first). -/
def readString (done : List Char) : List Char → Except Fault String
  | [] => .error .ended
  | '"' :: _ => .ok (String.ofList done.reverse)
  | '\\' :: cs =>
    match cs with
    | [] => .error .ended
    | 'u' :: a :: b :: c :: d :: r =>
      match codeUnit? a b c d with
      | none => .error (codeUnitFault (a :: b :: c :: d :: r))
      | some n =>
        if isLowSurrogate n then .error .malformed
        else if isHighSurrogate n then
          match r with
          | '\\' :: 'u' :: a' :: b' :: c' :: d' :: r' =>
            match codeUnit? a' b' c' d' with
            | none => .error (codeUnitFault (a' :: b' :: c' :: d' :: r'))
            | some m =>
              if isLowSurrogate m then
                readString (Char.ofNat (0x10000 + (n - 0xD800) * 0x400 + (m - 0xDC00)) :: done) r'
              else .error .malformed
          | other => .error (pairFault other)
        else readString (Char.ofNat n :: done) r
    | 'u' :: r => .error (codeUnitFault r)
    | e :: r =>
      match shortEscape? e with
      | some c => readString (c :: done) r
      | none => .error .malformed
  | c :: cs => if c.toNat < 0x20 then .error .malformed else readString (c :: done) cs

/-- The text after the closing quote, when only the grammar of escapes is checked. -/
def skipString : List Char → Except Fault (List Char)
  | [] => .error .ended
  | '"' :: cs => .ok cs
  | '\\' :: cs =>
    match cs with
    | [] => .error .ended
    | 'u' :: a :: b :: c :: d :: r =>
      match codeUnit? a b c d with
      | none => .error (codeUnitFault (a :: b :: c :: d :: r))
      | some _ => skipString r
    | 'u' :: r => .error (codeUnitFault r)
    | e :: r =>
      match shortEscape? e with
      | some _ => skipString r
      | none => .error .malformed
  | c :: cs => if c.toNat < 0x20 then .error .malformed else skipString cs

theorem length_of_skipString {cs r : List Char} (h : skipString cs = .ok r) :
    r.length < cs.length := by
  fun_induction skipString cs <;> simp_all <;> omega

/-! ## Cutting a text into tokens -/

def punctuation? : Char → Option Token
  | '[' => some .openArray
  | ']' => some .closeArray
  | '{' => some .openObject
  | '}' => some .closeObject
  | ',' => some .comma
  | ':' => some .colon
  | _ => none

/-- A word token, or a broken one after which nothing is looked at. -/
def wordToken (token : Token) (letters cs : List Char) : Token × Option (List Char) :=
  match expectWord letters cs with
  | .ok r => (token, some r)
  | .error f => (.broken f, none)

/-- A number token; a grammar fault is always `malformed` to a reader that only passes over it. -/
def numberToken (negative : Bool) (cs : List Char) : Token × Option (List Char) :=
  match numeral negative cs with
  | .ok (n, r) => (.num ⟨n.number, .ok ()⟩, some r)
  | .error f => (.num ⟨.error f, .error .malformed⟩, none)

def stringToken (cs : List Char) : Token × Option (List Char) :=
  match skipString cs with
  | .ok r => (.str ⟨readString [] cs, .ok ()⟩, some r)
  | .error f => (.str ⟨readString [] cs, .error f⟩, none)

/-- The token that begins with the character `c`, and the text after it unless the cutting stops. -/
def tokenAt (c : Char) (cs : List Char) : Token × Option (List Char) :=
  match punctuation? c with
  | some t => (t, some cs)
  | none =>
    if c = '"' then stringToken cs
    else if c = 't' then wordToken (.bool true) ['r', 'u', 'e'] cs
    else if c = 'f' then wordToken (.bool false) ['a', 'l', 's', 'e'] cs
    else if c = 'n' then wordToken .null ['u', 'l', 'l'] cs
    else if c = '-' then numberToken true cs
    else if c.isDigit then numberToken false (c :: cs)
    else (.broken .malformed, none)

theorem length_of_wordToken {t u : Token} {es cs r : List Char}
    (h : wordToken t es cs = (u, some r)) : r.length ≤ cs.length := by
  unfold wordToken at h
  split at h
  · next h' => cases h; exact length_of_expectWord h'
  · cases h

theorem length_of_numberToken {n : Bool} {t : Token} {cs r : List Char}
    (h : numberToken n cs = (t, some r)) : r.length < cs.length := by
  unfold numberToken at h
  split at h
  · next h' => cases h; exact length_of_numeral h'
  · cases h

theorem length_of_stringToken {t : Token} {cs r : List Char}
    (h : stringToken cs = (t, some r)) : r.length < cs.length := by
  unfold stringToken at h
  split at h
  · next h' => cases h; exact length_of_skipString h'
  · cases h

/-- A token takes at least one character. -/
theorem length_of_tokenAt {c : Char} {t : Token} {cs r : List Char}
    (h : tokenAt c cs = (t, some r)) : r.length ≤ cs.length := by
  unfold tokenAt at h
  split at h
  · cases h; exact Nat.le_refl _
  · repeat' split at h
    · exact Nat.le_of_lt (length_of_stringToken h)
    · exact length_of_wordToken h
    · exact length_of_wordToken h
    · exact length_of_wordToken h
    · exact Nat.le_of_lt (length_of_numberToken h)
    · exact Nat.le_of_lt_succ (length_of_numberToken h)
    · cases h

/-- The tokens of a text, behind those already cut off (newest first). -/
def tokensFrom (done : List Token) : List Char → List Token
  | [] => done.reverse
  | c :: cs =>
    if isSpace c then tokensFrom done cs
    else
      match h : tokenAt c cs with
      | (t, none) => (t :: done).reverse
      | (t, some r) =>
        have := length_of_tokenAt h
        tokensFrom (t :: done) r
termination_by cs => cs.length

def tokens (text : List Char) : List Token := tokensFrom [] text

theorem tokensFrom_eq (done : List Token) (cs : List Char) :
    tokensFrom done cs = done.reverse ++ tokens cs := by
  suffices h : ∀ n cs done, cs.length ≤ n →
      tokensFrom done cs = done.reverse ++ tokensFrom [] cs from h cs.length cs done (Nat.le_refl _)
  intro n
  induction n with
  | zero =>
    intro cs done h
    cases cs with
    | nil => simp [tokensFrom]
    | cons c cs => simp at h
  | succ n ih =>
    intro cs done h
    cases cs with
    | nil => simp [tokensFrom]
    | cons c cs =>
      have hlen : cs.length ≤ n := Nat.le_of_succ_le_succ h
      rw [tokensFrom, tokensFrom]
      split
      · exact ih cs done hlen
      · split
        · simp
        · next t r hr =>
          have hr' : r.length ≤ n := Nat.le_trans (length_of_tokenAt hr) hlen
          rw [ih r (t :: done) hr', ih r [t] hr']
          simp

@[simp] theorem tokens_nil : tokens [] = [] := by simp [tokens, tokensFrom]

/-- Space in front of a text changes no token. -/
theorem tokens_cons_space {c : Char} (h : isSpace c = true) (cs : List Char) :
    tokens (c :: cs) = tokens cs := by
  rw [tokens, tokensFrom, if_pos h, tokens]

/-- The first token, and the tokens after it. -/
theorem tokens_cons {c : Char} {t : Token} {cs r : List Char} (hs : isSpace c = false)
    (h : tokenAt c cs = (t, some r)) : tokens (c :: cs) = t :: tokens r := by
  rw [tokens, tokensFrom, if_neg (by simp [hs])]
  split
  · next h' => rw [h] at h'; cases h'
  · next h' => rw [h] at h'; cases h'; rw [tokensFrom_eq]; rfl

/-- A token after which the cutting stops. -/
theorem tokens_cons_last {c : Char} {t : Token} {cs : List Char} (hs : isSpace c = false)
    (h : tokenAt c cs = (t, none)) : tokens (c :: cs) = [t] := by
  rw [tokens, tokensFrom, if_neg (by simp [hs])]
  split
  · next h' => rw [h] at h'; cases h'; rfl
  · next h' => rw [h] at h'; cases h'

end SpriteStage.Json
