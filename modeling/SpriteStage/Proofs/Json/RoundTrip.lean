import SpriteStage.Json.Reading
import SpriteStage.Proofs.Json.Spelling

/-!
# Written values are read back

The readers undo what the trees of written values say: a list item by item, the members of an object
one after the other at the end of those already read, and a value at any depth that its tree does
not exceed: `Exact.ofTree`.
-/

namespace SpriteStage.Json

namespace Tree

theorem height_le_of_mem {t : Tree} {ts : List Tree} (h : t ∈ ts) :
    t.height ≤ heightOfItems ts := by
  induction h with
  | head ts => exact Nat.le_max_left _ _
  | tail t' _ ih => exact Nat.le_trans ih (Nat.le_max_right _ _)

theorem height_le_of_mem_entries {e : Tree × Tree} {es : List (Tree × Tree)} (h : e ∈ es) :
    e.2.height ≤ heightOfEntries es := by
  induction h with
  | head es => exact Nat.le_max_left _ _
  | tail e' _ ih => exact Nat.le_trans ih (Nat.le_max_right _ _)

section Heights

variable {α : Type} {x : α} {xs : List α}

theorem height_le_of_mem_map (tree : α → Tree) (h : x ∈ xs) :
    (tree x).height ≤ heightOfItems (xs.map tree) :=
  height_le_of_mem (List.mem_map_of_mem h)

theorem height_le_of_mem_map_entries (key tree : α → Tree) (h : x ∈ xs) :
    (tree x).height ≤ heightOfEntries (xs.map fun y => (key y, tree y)) :=
  height_le_of_mem_entries (e := (key x, tree x))
    (List.mem_map_of_mem (f := fun y => (key y, tree y)) h)

end Heights

variable {α : Type} {read : Tree → Except Fault α} {tree : α → Tree}

/-- A list is read when each of its items is. -/
theorem readList_map {xs : List α} (h : ∀ x ∈ xs, read (tree x) = .ok x) :
    readList read (.arr (xs.map tree) .closed) = .ok xs := by
  have hitems : (xs.map tree).mapM read = .ok xs := by
    induction xs with
    | nil => rfl
    | cons x xs ih =>
        rw [List.map_cons, List.mapM_cons, h x List.mem_cons_self,
          ih fun y hy => h y (.tail x hy)]
        rfl
  rw [readList, hitems]
  rfl

/-- A key above all others goes to the end. -/
theorem putMember_of_lt {k : String} {v : α} {ms : List (String × α)} (h : ∀ m ∈ ms, m.1 < k) :
    putMember k v ms = ms ++ [(k, v)] := by
  induction ms with
  | nil => rfl
  | cons m ms ih =>
      have hm : m.1 < k := h m List.mem_cons_self
      rw [putMember, if_neg (String.lt_asymm hm), if_pos hm, ih fun m' hm' => h m' (.tail m hm')]
      rfl

def addMember (read : Tree → Except Fault α) (members : List (String × α)) :
    Tree × Tree → Except Fault (List (String × α))
  | (k, v) => do
    let key ← k.readKey
    let value ← read v
    return putMember key value members

theorem readMembers_eq (read : Tree → Except Fault α) (entries : List (Tree × Tree)) :
    readMembers read (.obj entries .closed) = entries.foldlM (addMember read) [] := by
  change (entries.foldlM (addMember read) [] >>= fun members => Except.ok members) = _
  cases entries.foldlM (addMember read) [] <;> rfl

theorem addMember_of_lt {k : String} {v : Tree} {a : α} {ms : List (String × α)}
    (hread : read v = .ok a) (h : ∀ m ∈ ms, m.1 < k) :
    addMember read ms (.str (.sound k), v) = .ok (ms ++ [(k, a)]) := by
  simp [addMember, readKey, Scan.sound, hread, putMember_of_lt h, bind, Except.bind, pure,
    Except.pure]

/-- Members whose keys ascend, above those already read, are put behind them. -/
theorem foldlM_addMember {ms done : List (String × α)}
    (order : ((done ++ ms).map Prod.fst).Pairwise (· < ·))
    (h : ∀ m ∈ ms, read (tree m.2) = .ok m.2) :
    (ms.map fun m => (Tree.str (.sound m.1), tree m.2)).foldlM (addMember read) done =
      .ok (done ++ ms) := by
  induction ms generalizing done with
  | nil => rw [List.append_nil]; rfl
  | cons m ms ih =>
      have hlt (d : String × α) (hd : d ∈ done) : d.1 < m.1 := by
        rw [List.map_append, List.pairwise_append] at order
        exact order.2.2 d.1 (List.mem_map_of_mem hd) m.1 List.mem_cons_self
      rw [List.append_cons] at order ⊢
      rw [List.map_cons, List.foldlM_cons, addMember_of_lt (h m List.mem_cons_self) hlt]
      exact ih order fun m' hm' => h m' (.tail m hm')

/-- The members of an object are read when their values are and their keys ascend. -/
theorem readMembers_map {ms : List (String × α)}
    (order : (ms.map Prod.fst).Pairwise (· < ·)) (h : ∀ m ∈ ms, read (tree m.2) = .ok m.2) :
    readMembers read (.obj (ms.map fun m => (.str (.sound m.1), tree m.2)) .closed) = .ok ms := by
  rw [readMembers_eq]
  exact foldlM_addMember order h

end Tree

/-- A value is read back from its tree at any depth that reaches its ground. -/
theorem Value.Exact.ofTree {v : Value} (h : v.Exact) {depth : Nat} (hd : v.tree.height ≤ depth) :
    Value.ofTree depth v.tree = .ok v := by
  induction h generalizing depth with
  | null | bool | int | str => simp [tree, Value.ofTree, Scan.sound, Except.map]
  | arr _ ih =>
      rw [tree, treesOfItems_eq_map] at hd ⊢
      rw [Tree.height] at hd
      cases depth with
      | zero => cases hd
      | succ depth =>
          have hitems := Tree.readList_map fun v hv => ih v hv
            (Nat.le_trans (Tree.height_le_of_mem_map tree hv) (Nat.le_of_succ_le_succ hd))
          rw [Value.ofTree, hitems]
          rfl
  | obj order _ ih =>
      rw [tree, treesOfMembers_eq_map] at hd ⊢
      rw [Tree.height] at hd
      cases depth with
      | zero => cases hd
      | succ depth =>
          have hmembers := Tree.readMembers_map order fun m hm => ih m hm
            (Nat.le_trans (Tree.height_le_of_mem_map_entries _ (fun m => m.2.tree) hm)
              (Nat.le_of_succ_le_succ hd))
          rw [Value.ofTree, hmembers]
          rfl

end SpriteStage.Json
