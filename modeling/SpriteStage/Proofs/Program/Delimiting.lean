import SpriteStage.Proofs.Program.RoundTrip

/-!
# Where a program ends

A program is read only from a container that is closed, and a text that closes its container stays
the same document whatever follows: `Listing.self_delimiting`. So what follows the text of a program
is refused unless it is space, and no text of a program is the beginning of another one.
-/

namespace SpriteStage

open Json

/-! ## Only closed containers are read -/

namespace Json

/-- A reader that goes on behind the end of a container has seen its closing bracket. -/
theorem Tail.closed_of_check {α : Type} {tail : Tail} {k : Unit → Except Fault α} {a : α}
    (h : (tail.check >>= k) = .ok a) : tail = .closed := by
  cases tail with
  | closed => rfl
  | cut | stray => cases h

theorem Document.read_eq_ok {α : Type} {d : Document} {read : Tree → Except Fault α} {a : α} :
    d.read read = .ok a ↔ read d.tree = .ok a ∧ d.more = false := by
  rw [Document.read, bind_eq_ok]
  cases d.more <;> simp [pure, Except.pure]

namespace Tree

variable {α σ : Type} {t : Tree}

theorem isClosed_of_readList {read : Tree → Except Fault α} {xs : List α}
    (h : readList read t = .ok xs) : t.isClosed = true := by
  cases t with
  | arr items tail =>
      obtain ⟨ys, -, h⟩ := bind_eq_ok.mp h
      rw [Tail.closed_of_check h]
      rfl
  | _ => cases h

theorem closed_of_readSequence {fields : List (Field σ)} {draft r : σ} {ts : List Tree} {tail : Tail}
    (h : readSequence fields draft ts tail = .ok r) : tail = .closed := by
  induction fields generalizing draft ts with
  | nil =>
      cases ts with
      | nil => exact Tail.closed_of_check h
      | cons t ts => cases h
  | cons field fields ih =>
      cases ts with
      | nil => exact Tail.closed_of_check h
      | cons t ts =>
          obtain ⟨draft', -, h⟩ := bind_eq_ok.mp h
          exact ih h

theorem isClosed_of_readRecord {fields : List (Field σ)} {start r : σ}
    (h : readRecord fields start t = .ok r) : t.isClosed = true := by
  cases t with
  | obj entries tail =>
      obtain ⟨p, -, h⟩ := bind_eq_ok.mp h
      rw [Tail.closed_of_check h]
      rfl
  | arr items tail =>
      rw [closed_of_readSequence h]
      rfl
  | _ => cases h

end Tree

/-! ## Blank texts -/

/-- A blank that is no space begins no token. -/
theorem tokenAt_of_isBlank {c : Char} (h : Text.isBlank c = true) (hs : isSpace c = false)
    (cs : List Char) : tokenAt c cs = (.broken .malformed, none) := by
  have hne (d : Char) (hd : Text.isBlank d = false) : c ≠ d := by
    rintro rfl
    rw [h] at hd
    cases hd
  have hpunctuation : punctuation? c = none := by
    unfold punctuation?
    split <;> first | rfl | cases h
  have hdigit : c.isDigit = false := by
    cases hd : c.isDigit with
    | false => rfl
    | true =>
        have hrange : 48 ≤ c.toNat ∧ c.toNat ≤ 57 := Char.isDigit_iff_toNat.mp hd
        simp only [Text.isBlank, Text.blankRanges, List.any_cons, List.any_nil, Bool.or_false,
          Bool.or_eq_true, Bool.and_eq_true, decide_eq_true_eq] at h
        omega
  simp only [tokenAt, hpunctuation, if_neg (hne '"' rfl), if_neg (hne 't' rfl),
    if_neg (hne 'f' rfl), if_neg (hne 'n' rfl), if_neg (hne '-' rfl), hdigit, Bool.false_eq_true,
    if_false]

/-- A text of blanks has no tokens, or a broken one. -/
theorem tokens_of_blank {text : List Char} (h : ∀ c ∈ text, Text.isBlank c = true) :
    tokens text = [] ∨ tokens text = [.broken .malformed] := by
  induction text using tokens_induction with
  | nil => exact .inl tokens_nil
  | space c cs hs ih =>
      rw [tokens_cons_space hs]
      exact ih fun d hd => h d (.tail c hd)
  | last c t cs hs ht =>
      rw [tokenAt_of_isBlank (h c List.mem_cons_self) hs] at ht
      cases ht
      exact .inr (tokens_cons_last hs (tokenAt_of_isBlank (h c List.mem_cons_self) hs cs))
  | token c t cs r hs ht _ =>
      rw [tokenAt_of_isBlank (h c List.mem_cons_self) hs] at ht
      cases ht

theorem exists_not_blank {text : List Char} (h : (Document.ofText text).tree.isClosed = true) :
    ∃ c ∈ text, Text.isBlank c = false := by
  cases hall : text.all Text.isBlank with
  | false => simpa using List.all_eq_false.mp hall
  | true =>
      rcases tokens_of_blank (List.all_eq_true.mp hall) with htokens | htokens
      · rw [Document.ofText, htokens] at h
        cases h
      · rw [Document.ofText, htokens] at h
        cases h

end Json

namespace Text

/-- What follows the first character that is not blank does not matter to trimming. -/
theorem trimLeft_append {cs : List Char} (h : ∃ c ∈ cs, isBlank c = false) (u : List Char) :
    ∃ c r, trimLeft cs = c :: r ∧ trimLeft (cs ++ u) = c :: (r ++ u) := by
  induction cs with
  | nil => simp at h
  | cons c cs ih =>
      cases hc : isBlank c with
      | true =>
          obtain ⟨d, hd, hblank⟩ := h
          have hmem : d ∈ cs := by
            rcases List.mem_cons.mp hd with rfl | hd
            · rw [hc] at hblank; cases hblank
            · exact hd
          simpa [trimLeft, hc] using ih ⟨d, hmem, hblank⟩
      | false => exact ⟨c, cs, by simp [trimLeft, hc], by simp [trimLeft, hc]⟩

end Text

namespace Listing

theorem isClosed_of_readForm {form : ListingForm} {t : Json.Tree} {chains : List Chain}
    (h : readForm form t = .ok chains) : t.isClosed = true := by
  cases form with
  | blocks => exact Json.Tree.isClosed_of_readList h
  | workspace => exact Json.Tree.isClosed_of_readRecord h

theorem formOf_append {text : List Char} (h : ∃ c ∈ text, Text.isBlank c = false)
    (u : List Char) : formOf (text ++ u) = formOf text := by
  obtain ⟨c, r, htext, happend⟩ := Text.trimLeft_append h u
  unfold formOf
  rw [htext, happend]
  split <;> simp_all

theorem read_of_ofChars {text : List Char} {l : Listing} (h : ofChars text = .ok l) :
    l.form = formOf text ∧ readForm l.form (Document.ofText text).tree = .ok l.chains ∧
      (Document.ofText text).more = false := by
  unfold ofChars at h
  cases hread : (Document.ofText text).read (readForm (formOf text)) with
  | error f => simp [hread, Except.map] at h
  | ok chains =>
      simp only [hread, Except.map, Except.ok.injEq] at h
      cases h
      exact ⟨rfl, Document.read_eq_ok.mp hread⟩

/-- What follows a program is passed over if it is space, and refused if it is not. -/
theorem ofChars_append {text : List Char} {l : Listing} (h : ofChars text = .ok l)
    (u : List Char) :
    ofChars (text ++ u) = if u.all isSpace then .ok l else .error .malformed := by
  obtain ⟨hform, hread, hmore⟩ := read_of_ofChars h
  have hclosed := isClosed_of_readForm hread
  rw [ofChars, formOf_append (exists_not_blank hclosed), ← hform,
    Document.ofText_append hclosed hmore, Document.read, hread]
  cases u.all isSpace <;> rfl

/-- **Programs delimit themselves.** Behind the text of a program nothing but space is accepted, and
with it the program stays the same; and a text that is cut off before its last character that is no
space is refused. -/
theorem self_delimiting {text : String} {l : Listing} (h : ofText text = .ok l) :
    (∀ u : String, (∃ l', ofText (text ++ u) = .ok l') ↔ ∀ c ∈ u.toList, isSpace c = true) ∧
    (∀ (u : String) (l' : Listing), ofText (text ++ u) = .ok l' → l' = l) ∧
    (∀ cut rest : String, text = cut ++ rest → (∃ c ∈ rest.toList, isSpace c = false) →
      ∃ f, ofText cut = .error f) := by
  have happend {t : String} {k : Listing} (hk : ofText t = .ok k) (u : String) :
      ofText (t ++ u) = if u.toList.all isSpace then .ok k else .error .malformed := by
    rw [ofText, String.toList_append]
    exact ofChars_append hk u.toList
  refine ⟨fun u => ⟨?_, fun hu => ⟨l, ?_⟩⟩, fun u l' hl => ?_, fun cut rest htext hrest => ?_⟩
  · rintro ⟨l', hl⟩
    rw [happend h] at hl
    split at hl
    · rename_i hall
      exact List.all_eq_true.mp hall
    · cases hl
  · rw [happend h, if_pos (List.all_eq_true.mpr hu)]
  · rw [happend h] at hl
    split at hl
    · cases hl
      rfl
    · cases hl
  · -- a cut that is accepted leaves nothing but space behind it
    cases hcut : ofText cut with
    | error f => exact ⟨f, rfl⟩
    | ok k =>
        obtain ⟨c, hc, hspace⟩ := hrest
        have hall : rest.toList.all isSpace = false :=
          List.all_eq_false.mpr ⟨c, hc, by simp [hspace]⟩
        rw [htext, happend hcut, hall] at h
        cases h

theorem self_delimiting_written :
    ofText (written sampleChains) = .ok ⟨.blocks, sampleChains⟩ ∧
      (∃ l, ofText (written sampleChains ++ " \n") = .ok l) ∧
      ¬ ∃ l, ofText (written sampleChains ++ "]") = .ok l := by
  have h : ofText (written sampleChains) = .ok ⟨.blocks, sampleChains⟩ := by
    rw [ofText, written, String.toList_ofList]
    exact ofChars_writtenChars exact_sampleChains
  refine ⟨h, ((self_delimiting h).1 " \n").mpr (by simp [isSpace]), fun haccepted => ?_⟩
  exact absurd (((self_delimiting h).1 "]").mp haccepted) (by simp [isSpace])

end Listing

end SpriteStage
