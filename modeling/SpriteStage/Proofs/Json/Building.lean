import SpriteStage.Json.Tree
import SpriteStage.Proofs.Json.Following

/-!
# Texts that end with a container

The tree of a text is a container that is closed only when the last token closes it: everything that
is given up on the way leaves the outermost container cut off. A closing bracket ends where it
stands, so what follows such a text is looked at only to tell that there is something:
`Document.ofText_append`.
-/

namespace SpriteStage.Json

def Tree.isClosed : Tree → Bool
  | .arr _ .closed => true
  | .obj _ .closed => true
  | _ => false

namespace Builder

def feed (b : Builder) (text : List Char) : Builder := (tokens text).foldl step b

@[simp] theorem feed_nil (b : Builder) : b.feed [] = b := by simp [feed]

theorem feed_append {cs u : List Char} (h : tokens (cs ++ u) = tokens cs ++ tokens u)
    (b : Builder) : b.feed (cs ++ u) = (b.feed cs).feed u := by
  simp [feed, h]

/-- One token of a text. -/
theorem feed_token {c : Char} {t : Token} {cs r : List Char} (hs : isSpace c = false)
    (h : tokenAt c cs = (t, some r)) (b : Builder) : b.feed (c :: cs) = (b.step t).feed r := by
  simp [feed, tokens_cons hs h]

variable {t : Tree} {fs : List Frame}

/-- A value that is given up inside a container cuts that container off. -/
theorem isClosed_abandon : (abandon t fs).isClosed = (t.isClosed && fs.isEmpty) := by
  induction fs generalizing t with
  | nil => simp [abandon]
  | cons f fs ih => cases f <;> rw [abandon, ih] <;> simp [Tree.isClosed]

theorem isClosed_fail : (fail t fs).tree.isClosed = (t.isClosed && fs.isEmpty) :=
  isClosed_abandon

/-- A value that is complete closes the whole only if nothing is around it. -/
theorem isClosed_close : (close t fs).tree.isClosed = (t.isClosed && fs.isEmpty) := by
  cases fs with
  | nil => simp [close, tree]
  | cons f fs => cases f <;> rw [close, tree, isClosed_abandon] <;> simp [Tree.isClosed]

theorem isClosed_beginValue (fs : List Frame) (k : Token) :
    (beginValue fs k).tree.isClosed = false := by
  cases k with
  | openArray | openObject => exact isClosed_abandon
  | null | bool | num | str => exact isClosed_close
  | _ => exact isClosed_fail

theorem isClosed_beginKey (entries : List (Tree × Tree)) (fs : List Frame) (k : Token) :
    (beginKey entries fs k).tree.isClosed = false := by
  cases k with
  | str => exact isClosed_abandon
  | _ => exact isClosed_fail

/-- The first item of an array is a value like any other. -/
theorem step_firstItem {k : Token} (h : k ≠ .closeArray) :
    step (.inArray [] fs) k = beginValue (.items [] :: fs) k := by
  cases k <;> first | rfl | exact absurd rfl h

/-- The first key of an object is a key like any other. -/
theorem step_firstKey {k : Token} (h : k ≠ .closeObject) :
    step (.inObject [] fs) k = beginKey [] fs k := by
  cases k <;> first | rfl | exact absurd rfl h

/-- Only a closing bracket closes the whole. -/
theorem isClosed_step {b : Builder} {k : Token} (harr : k ≠ .closeArray) (hobj : k ≠ .closeObject)
    (hmore : (b.step k).more = false) : (b.step k).tree.isClosed = false := by
  cases b with
  | value fs => exact isClosed_beginValue fs k
  | inArray items fs =>
      cases items with
      | nil => exact step_firstItem harr ▸ isClosed_beginValue (.items [] :: fs) k
      | cons item items =>
          cases k with
          | closeArray => exact absurd rfl harr
          | comma => exact isClosed_abandon
          | _ => exact isClosed_fail
  | inObject entries fs =>
      cases entries with
      | nil => exact step_firstKey hobj ▸ isClosed_beginKey [] fs k
      | cons entry entries =>
          cases k with
          | closeObject => exact absurd rfl hobj
          | comma => exact isClosed_abandon
          | _ => exact isClosed_fail
  | key entries fs => exact isClosed_beginKey entries fs k
  | colon key entries fs =>
      cases k with
      | colon => exact isClosed_abandon
      | _ => exact isClosed_fail
  | finished t m => cases hmore

/-- Once the whole is closed nothing is open. -/
theorem eq_finished {b : Builder} (h : b.tree.isClosed = true) : b = .finished b.tree b.more := by
  cases b with
  | finished t m => rfl
  | _ =>
      rw [tree, isClosed_abandon] at h
      simp [Tree.isClosed] at h

/-- What follows the value is only noticed. -/
theorem foldl_finished (m : Bool) (us : List Token) :
    us.foldl step (.finished t m) = .finished t (m || !us.isEmpty) := by
  induction us generalizing m with
  | nil => simp
  | cons k us ih => simp [step, ih]

end Builder

open Builder

/-- In front of a text that closes its container, the last token is a closing bracket. -/
theorem last_of_isClosed {text : List Char} (h : (Document.ofText text).tree.isClosed = true)
    (hmore : (Document.ofText text).more = false) {k : Token}
    (hk : (tokens text).getLast? = some k) : k = .closeArray ∨ k = .closeObject := by
  obtain ⟨ks, hks⟩ := List.getLast?_eq_some_iff.mp hk
  simp only [Document.ofText, Document.ofTokens, hks, List.foldl_append, List.foldl_cons,
    List.foldl_nil] at h hmore
  by_cases harr : k = .closeArray
  · exact .inl harr
  by_cases hobj : k = .closeObject
  · exact .inr hobj
  · rw [isClosed_step harr hobj hmore] at h
    cases h

/-- A text that ends with its container stays the same document up to whether something follows. -/
theorem Document.ofText_append {text : List Char}
    (h : (Document.ofText text).tree.isClosed = true) (hmore : (Document.ofText text).more = false)
    (u : List Char) :
    Document.ofText (text ++ u) = ⟨(Document.ofText text).tree, !u.all isSpace⟩ := by
  have hadmits (k : Token) (hk : (tokens text).getLast? = some k) : k.admits u = true := by
    rcases last_of_isClosed h hmore hk with rfl | rfl <;> rfl
  have hfed : start.feed (text ++ u) = (start.feed text).feed u :=
    feed_append (tokens_append hadmits) start
  have hend : start.feed text = .finished (Document.ofText text).tree false := by
    rw [← hmore]
    exact eq_finished h
  rw [hend] at hfed
  change (⟨(start.feed (text ++ u)).tree, (start.feed (text ++ u)).more⟩ : Document) = _
  rw [hfed, feed, foldl_finished, isEmpty_tokens]
  simp [Builder.tree, Builder.more]

end SpriteStage.Json
