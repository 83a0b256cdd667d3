import OsaBase.Json.Delete

/-!
# The items of an array

An array and the chain of its items. The functions that add, detach, insert and replace an item do
to the chain what is done to a list, and leave the other blocks as they are.
-/

open Blocks Json Links

namespace OsaBase

namespace CJsonHeap

variable {D : Type}

def withChild (n : CJsonNode D) (child : Option ℕ) : CJsonNode D :=
  { n with data := { n.data with child } }

/-- An array or an object, and its items in a chain. -/
def family (array : ℕ) (n : CJsonNode D) (cells : List (ℕ × CJsonData D)) :
    Multiset (ℕ × CJsonNode D) :=
  {(array, withChild n (first cells none))} + chain none cells none

variable {h h' : CJsonHeap D} {I I' J : Multiset (ℕ × CJsonNode D)}
  {T : Multiset (ℕ × List UInt8)} {array c item : ℕ} {n : CJsonNode D} {d e : CJsonData D}
  {cells xs ys : List (ℕ × CJsonData D)}

/-- The blocks of an item: the chain of its children, and what is below them. -/
theorem treeBlocks_item (p q : Option ℕ) (a : ℕ) (l : ItemLabel D) (children : List (ItemTree D)) :
    ItemTree.treeBlocks p q (.item a l children) =
      family a ⟨q, p, l.info, none, false⟩ (children.map ItemTree.top) +
        ItemTree.innerAll children := by
  rw [ItemTree.treeBlocks, ItemTree.inner_item, ItemTree.blocks, family, ItemTree.first_top,
    add_assoc]
  rfl

/-! ## Links -/

theorem Holds.relink (hh : h.Holds I T) {items : ℕ → Option (CJsonNode D)} (hitems : Owns items I')
    (haddr : I'.map Prod.fst = I.map Prod.fst) : ({ h with items } : CJsonHeap D).Holds I' T where
  items := hitems
  texts := hh.texts
  items_lt := by
    intro x hx
    have hmem : x.1 ∈ I.map Prod.fst := haddr ▸ Multiset.mem_map_of_mem Prod.fst hx
    obtain ⟨y, hy, heq⟩ := Multiset.mem_map.mp hmem
    exact heq ▸ hh.items_lt y hy
  texts_lt := hh.texts_lt

theorem Holds.relinkNext {q : Option ℕ} (hh : h.Holds (chain none xs q + I) T) (q' : Option ℕ) :
    ∃ items, Links.relinkNext h.items (last none xs) q' = some items ∧
      ({ h with items } : CJsonHeap D).Holds (chain none xs q' + I) T := by
  obtain ⟨items, hitems, howns⟩ := owns_relinkNext hh.items q'
  refine ⟨items, hitems, hh.relink howns ?_⟩
  rw [Multiset.map_add, Multiset.map_add, map_fst_chain, map_fst_chain]

theorem Holds.relinkPrev {p : Option ℕ} (hh : h.Holds (chain p ys none + I) T) (p' : Option ℕ) :
    ∃ items, Links.relinkPrev h.items (first ys none) p' = some items ∧
      ({ h with items } : CJsonHeap D).Holds (chain p' ys none + I) T := by
  obtain ⟨items, hitems, howns⟩ := owns_relinkPrev hh.items p'
  refine ⟨items, hitems, hh.relink howns ?_⟩
  rw [Multiset.map_add, Multiset.map_add, map_fst_chain, map_fst_chain]

theorem family_add : family array n cells + I =
    chain none cells none + ({(array, withChild n (first cells none))} + I) := by
  rw [family]
  abel

theorem Holds.family_data (hh : h.Holds (family array n cells + I) T) :
    h.data array = some { n.data with child := first cells none } := by
  rw [family, add_assoc] at hh
  exact hh.data

theorem Holds.family_chain (hh : h.Holds (family array n cells + I) T) :
    Owns h.items (chain none cells none + ({(array, withChild n (first cells none))} + I)) := by
  rw [family_add] at hh
  exact hh.items

theorem Holds.family_length (hh : h.Holds (family array n cells + I) T) :
    cells.length < h.fresh := by
  have hcard := hh.card_le
  rw [family, Multiset.card_add, Multiset.card_add, card_chain, Multiset.card_singleton] at hcard
  omega

/-- Different cells have different addresses. -/
theorem Holds.family_nodup (hh : h.Holds (family array n cells + I) T) :
    (cells.map Prod.fst).Nodup := by
  have hnodup := hh.family_chain.nodup
  rw [Multiset.map_add, Multiset.nodup_add, map_fst_chain, Multiset.coe_nodup] at hnodup
  exact hnodup.1

/-! ## Reading -/

theorem cJsonGetArraySize_family (hh : h.Holds (family array n cells + I) T) :
    h.cJsonGetArraySize array = some cells.length := by
  have hlen := hh.family_length
  have hseek := seek_pass (fun _ : CJsonNode D ↦ some false) hh.family_chain
    (fun _ _ _ ↦ rfl) 0 (h.fresh - cells.length)
  rw [Nat.add_sub_cancel' hlen.le, Nat.zero_add, seek_none] at hseek
  exact bind_of_some hh.family_data (bind_of_some hseek rfl)

theorem cJsonGetArrayItem_family (hh : h.Holds (family array n cells + I) T) (which : ℤ) :
    h.cJsonGetArrayItem array which = some (first (cells.drop which.toNat) none) :=
  bind_of_some hh.family_data (walk_chain hh.family_chain which.toNat)

/-! ## Adding -/

theorem suffixObject_holds {p : Option ℕ} (hne : xs ≠ [])
    (hh : h.Holds (chain none xs none + ({(item, ⟨none, p, e⟩)} + I)) T) :
    ∃ h', h.suffixObject (last none xs) (some item) = some h' ∧
      h'.Holds (chain none (xs ++ [(item, e)]) none + I) T ∧ Keeps h h' := by
  obtain ⟨xs, ⟨a, d⟩, rfl⟩ := (List.eq_nil_or_concat xs).resolve_left hne
  rw [List.concat_eq_append] at hh ⊢
  have hh : h.Holds ({(a, ⟨none, last none xs, d⟩)} +
      (chain none xs (some a) + ({(item, ⟨none, p, e⟩)} + I))) T :=
    hh.congr (by rw [chain_concat]; abel) rfl
  obtain ⟨h₁, hnext, hh₁, hk₁⟩ := hh.setNext (some item)
  have hh₁ : h₁.Holds ({(item, ⟨none, p, e⟩)} +
      ({(a, ⟨some item, last none xs, d⟩)} + (chain none xs (some a) + I))) T :=
    hh₁.congr (by abel) rfl
  obtain ⟨h₂, hprev, hh₂, hk₂⟩ := hh₁.setPrev (some a)
  have hlast : last none (xs ++ [(a, d)]) = some a := by rw [last_append]; rfl
  refine ⟨h₂, ?_, hh₂.congr ?_ rfl, hk₁.trans hk₂⟩
  · rw [hlast]
    exact bind_of_some rfl (bind_of_some hnext (bind_of_some rfl hprev))
  · rw [chain_concat, hlast, chain_concat]
    abel

/-- The item goes behind the others. -/
theorem cJsonAddItemToArray_family
    (hh : h.Holds (family array n cells + ({(item, ⟨none, none, e⟩)} + I)) T) :
    ∃ h', h.cJsonAddItemToArray array (some item) = some h' ∧
      h'.Holds (family array n (cells ++ [(item, e)]) + I) T ∧ Keeps h h' := by
  have hdata := hh.family_data
  rcases List.eq_nil_or_concat cells with rfl | ⟨xs, ⟨a, d⟩, rfl⟩
  · rw [family, chain_nil, add_zero] at hh
    obtain ⟨h', hwrite, hh', hk⟩ := hh.write fun d ↦ { d with child := some item }
    refine ⟨h', bind_of_some hdata hwrite, hh'.congr ?_ rfl, hk⟩
    rw [family, List.nil_append, chain_cons, chain_nil, first_cons, add_zero, add_assoc]
    rfl
  · rw [List.concat_eq_append] at hh hdata ⊢
    have hlen := hh.family_length
    rw [List.length_append, List.length_singleton] at hlen
    have hchain := hh.family_chain
    rw [chain_concat, add_assoc] at hchain
    have hget := hchain.get
    rw [add_left_comm] at hchain
    have hseek := seek_pass (fun n : CJsonNode D ↦ some n.next.isNone) hchain
      (fun b m hm ↦ congrArg some (next_of_mem_chain hm)) 0 (h.fresh - xs.length - 1 + 1)
    rw [seek_hit hget rfl, show xs.length + (h.fresh - xs.length - 1 + 1) = h.fresh by omega]
      at hseek
    have hchild : first (xs ++ [(a, d)]) none = first xs (some a) := first_append
    have hlast : last none (xs ++ [(a, d)]) = some a := last_append
    have hh : h.Holds (chain none (xs ++ [(a, d)]) none + ({(item, ⟨none, none, e⟩)} +
        ({(array, withChild n (first xs (some a)))} + I))) T :=
      hh.congr (by rw [family, hchild]; abel) rfl
    obtain ⟨h', hsuffix, hh', hk⟩ := suffixObject_holds (by simp) hh
    rw [hlast] at hsuffix
    refine ⟨h', ?_, hh'.congr ?_ rfl, hk⟩
    · obtain ⟨c, hc⟩ : ∃ c, first xs (some a) = some c := by cases xs <;> exact ⟨_, rfl⟩
      rw [hchild, hc] at hdata
      rw [hc] at hseek
      exact bind_of_some hdata (bind_of_some hseek hsuffix)
    · have hfirst : first (xs ++ [(a, d)] ++ [(item, e)]) none = first xs (some a) := by
        rw [List.append_assoc, first_append]
        rfl
      rw [family, hfirst]
      abel

/-! ## Detaching -/

theorem Holds.setChildAt {child : Option ℕ} (hh : h.Holds ({(array, withChild n child)} + I) T)
    (c : ℕ) (q : Option ℕ) :
    ∃ h', h.setChildAt array c q = some h' ∧
      h'.Holds ({(array, withChild n (if child = some c then q else child))} + I) T ∧
      Keeps h h' := by
  rw [CJsonHeap.setChildAt]
  by_cases hc : child = some c
  · obtain ⟨h', hwrite, hh', hk⟩ := hh.write fun d ↦ { d with child := q }
    refine ⟨h', bind_of_some hh.data ?_, hh'.congr (by rw [if_pos hc]; rfl) rfl, hk⟩
    rw [if_pos (show (withChild n child).data.child = some c from hc)]
    exact hwrite
  · refine ⟨h, bind_of_some hh.data ?_, hh.congr (by rw [if_neg hc]) rfl, .refl h⟩
    rw [if_neg (show ¬(withChild n child).data.child = some c from hc)]

theorem first_eq_iff (hnodup : ((xs ++ (c, d) :: ys).map Prod.fst).Nodup) :
    first (xs ++ (c, d) :: ys) none = some c ↔ xs = [] := by
  cases xs with
  | nil => exact iff_of_true rfl rfl
  | cons x xs =>
      obtain ⟨a, f⟩ := x
      rw [List.cons_append, List.map_cons, List.nodup_cons] at hnodup
      refine iff_of_false (fun heq ↦ hnodup.1 ?_) (List.cons_ne_nil _ _)
      obtain rfl : a = c := Option.some.inj heq
      simp

/-- The first pointer with `q` in the place of `c`. -/
theorem first_without (hnodup : ((xs ++ (c, d) :: ys).map Prod.fst).Nodup) (q : Option ℕ) :
    (if first (xs ++ (c, d) :: ys) none = some c then q
      else first (xs ++ (c, d) :: ys) none) = first xs q := by
  cases xs with
  | nil => exact if_pos rfl
  | cons x xs => exact if_neg fun heq ↦ List.cons_ne_nil _ _ ((first_eq_iff hnodup).mp heq)

theorem getArrayItem_mid (hh : h.Holds (family array n (xs ++ (c, d) :: ys) + I) T) {which : ℤ}
    (hwhich : which.toNat = xs.length) : h.cJsonGetArrayItem array which = some (some c) := by
  rw [cJsonGetArrayItem_family hh, hwhich, List.drop_left]
  rfl

/-- The cell of `c` and the two parts of the chain around it. -/
theorem family_mid : family array n (xs ++ (c, d) :: ys) + I =
    {(c, ⟨first ys none, last none xs, d⟩)} + (chain none xs (some c) + (chain (some c) ys none +
      ({(array, withChild n (first (xs ++ (c, d) :: ys) none))} + I))) := by
  rw [family_add, chain_append, chain_cons, first_cons]
  abel

/-- The item comes out of the chain, and stands alone. -/
theorem cJsonDetachItemFromArray_family
    (hh : h.Holds (family array n (xs ++ (c, d) :: ys) + I) T) {which : ℤ}
    (hwhich : which.toNat = xs.length) :
    ∃ h', h.cJsonDetachItemFromArray array which = some (some c, h') ∧
      h'.Holds (family array n (xs ++ ys) + ({(c, ⟨none, none, d⟩)} + I)) T ∧ Keeps h h' := by
  have hitem := getArrayItem_mid hh hwhich
  have hfirst := first_without (d := d) hh.family_nodup (first ys none)
  rw [family_mid] at hh
  generalize first (xs ++ (c, d) :: ys) none = child at hh hfirst
  have hget := hh.get
  -- the neighbours are linked to each other
  obtain ⟨items₁, hnext, hh₁⟩ := Holds.relinkNext (hh.congr (add_left_comm _ _ _) rfl)
    (first ys none)
  have hh₁ : CJsonHeap.Holds { h with items := items₁ } (chain (some c) ys none +
      ({(c, ⟨first ys none, last none xs, d⟩)} + (chain none xs (first ys none) +
        ({(array, withChild n child)} + I)))) T := hh₁.congr (by abel) rfl
  obtain ⟨items₂, hprev, hh₂⟩ := hh₁.relinkPrev (last none xs)
  have hh₂ : CJsonHeap.Holds { h with items := items₂ } ({(array, withChild n child)} +
      ({(c, ⟨first ys none, last none xs, d⟩)} + (chain none xs (first ys none) +
        (chain (last none xs) ys none + I)))) T := hh₂.congr (by abel) rfl
  obtain ⟨h₃, hset, hh₃, hk₃⟩ := hh₂.setChildAt c (first ys none)
  rw [hfirst] at hh₃
  obtain ⟨h₄, hset₄, hh₄, hk₄⟩ := Holds.setPrev (hh₃.congr (add_left_comm _ _ _) rfl) none
  obtain ⟨h₅, hset₅, hh₅, hk₅⟩ := hh₄.setNext none
  refine ⟨h₅, ?_, hh₅.congr ?_ rfl, ?_⟩
  · exact bind_of_some hitem (bind_of_some hget (bind_of_some hnext (bind_of_some hprev
      (bind_of_some hset (bind_of_some hset₄ (bind_of_some hset₅ rfl))))))
  · rw [family_add, chain_append, first_append]
    abel
  · exact Keeps.trans ⟨hk₃.fresh, hk₃.memory⟩ (hk₄.trans hk₅)

theorem getArrayItem_behind (hh : h.Holds (family array n cells + I) T) {which : ℤ}
    (hwhich : cells.length ≤ which.toNat) : h.cJsonGetArrayItem array which = some none := by
  rw [cJsonGetArrayItem_family hh, List.drop_eq_nil_of_le hwhich]
  rfl

/-! ## Inserting and replacing -/

/-- The item, which points back to the last of `xs`, gets behind it, or becomes the first one. -/
theorem Holds.linkBefore {child q p : Option ℕ} (hchild : child = some c ↔ xs = [])
    (hh : h.Holds ({(array, withChild n child)} + (chain none xs q +
      ({(item, ⟨p, last none xs, e⟩)} + I))) T) :
    ∃ h', h.linkBefore array c item = some h' ∧
      h'.Holds ({(array, withChild n (if child = some c then some item else child))} +
        (chain none xs (some item) + ({(item, ⟨p, last none xs, e⟩)} + I))) T ∧ Keeps h h' := by
  have hdata : h.data array = some (withChild n child).data := hh.data
  rcases List.eq_nil_or_concat xs with rfl | ⟨xs, ⟨a, f⟩, rfl⟩
  · have hc := hchild.mpr rfl
    obtain ⟨h', hwrite, hh', hk⟩ := hh.write fun d ↦ { d with child := some item }
    refine ⟨h', bind_of_some hdata ?_, hh'.congr (by rw [if_pos hc]; rfl) rfl, hk⟩
    rw [if_pos (show (withChild n child).data.child = some c from hc)]
    exact hwrite
  · have hc : ¬child = some c := fun h ↦ (by simp : xs.concat (a, f) ≠ []) (hchild.mp h)
    rw [List.concat_eq_append, chain_concat, last_append] at hh
    have hget : h.Holds ({(item, ⟨p, some a, e⟩)} + _) T :=
      hh.congr (show _ = _ + ({(array, withChild n child)} +
        ({(a, ⟨q, last none xs, f⟩)} + chain none xs (some a) + I)) by
          rw [last_cons, last_nil]
          abel) rfl
    have hh : h.Holds ({(a, ⟨q, last none xs, f⟩)} + ({(array, withChild n child)} +
        (chain none xs (some a) + ({(item, ⟨p, some a, e⟩)} + I)))) T :=
      hh.congr (by rw [last_cons, last_nil]; abel) rfl
    obtain ⟨h', hnext, hh', hk⟩ := hh.setNext (some item)
    refine ⟨h', bind_of_some hdata ?_, hh'.congr ?_ rfl, hk⟩
    · rw [if_neg (show ¬(withChild n child).data.child = some c from hc)]
      exact bind_of_some hget.get (bind_of_some rfl hnext)
    · rw [if_neg hc, List.concat_eq_append, chain_concat, last_append, last_cons, last_nil]
      abel

/-- The item goes before the one with the index `which`. -/
theorem cJsonInsertItemInArray_family {p q : Option ℕ} (which : ℤ)
    (hh : h.Holds (family array n (xs ++ (c, d) :: ys) + ({(item, ⟨q, p, e⟩)} + I)) T)
    (hwhich : which.toNat = xs.length) :
    ∃ h', h.cJsonInsertItemInArray array which item = some h' ∧
      h'.Holds (family array n (xs ++ (item, e) :: (c, d) :: ys) + I) T ∧ Keeps h h' := by
  have hitem := getArrayItem_mid hh hwhich
  have hchild := first_eq_iff (d := d) hh.family_nodup
  have hfirst := first_without (d := d) hh.family_nodup (some item)
  rw [family_mid] at hh
  generalize first (xs ++ (c, d) :: ys) none = child at hh hchild hfirst
  have hh : h.Holds ({(item, ⟨q, p, e⟩)} + ({(c, ⟨first ys none, last none xs, d⟩)} +
      (chain none xs (some c) + (chain (some c) ys none +
        ({(array, withChild n child)} + I))))) T := hh.congr (by abel) rfl
  obtain ⟨h₁, hnext, hh₁, hk₁⟩ := hh.setNext (some c)
  have hget := (hh₁.congr (add_left_comm _ _ _) rfl).get
  obtain ⟨h₂, hprev, hh₂, hk₂⟩ := hh₁.setPrev (last none xs)
  obtain ⟨h₃, hprev', hh₃, hk₃⟩ := Holds.setPrev (hh₂.congr (add_left_comm _ _ _) rfl) (some item)
  have hh₃ : h₃.Holds ({(array, withChild n child)} + (chain none xs (some c) +
      ({(item, ⟨some c, last none xs, e⟩)} + ({(c, ⟨first ys none, some item, d⟩)} +
        (chain (some c) ys none + I))))) T := hh₃.congr (by abel) rfl
  obtain ⟨h₄, hlink, hh₄, hk₄⟩ := hh₃.linkBefore hchild
  rw [hfirst] at hh₄
  refine ⟨h₄, ?_, hh₄.congr ?_ rfl, hk₁.trans (hk₂.trans (hk₃.trans hk₄))⟩
  · exact bind_of_some hitem (bind_of_some hnext (bind_of_some hget (bind_of_some hprev
      (bind_of_some hprev' hlink))))
  · rw [family_add, chain_append, chain_cons, chain_cons, first_append, first_cons, first_cons]
    abel

theorem cJsonInsertItemInArray_behind (which : ℤ)
    (hh : h.Holds (family array n cells + ({(item, ⟨none, none, e⟩)} + I)) T)
    (hwhich : cells.length ≤ which.toNat) :
    ∃ h', h.cJsonInsertItemInArray array which item = some h' ∧
      h'.Holds (family array n (cells ++ [(item, e)]) + I) T ∧ Keeps h h' := by
  obtain ⟨h', hadd, hh', hk⟩ := cJsonAddItemToArray_family hh
  exact ⟨h', bind_of_some (getArrayItem_behind hh hwhich) hadd, hh', hk⟩

/-- The item goes to the place of the one with the index `which`, which stands alone when it is
deleted. -/
theorem cJsonReplaceItemInArray_family {p q : Option ℕ} (which : ℤ)
    (hh : h.Holds (family array n (xs ++ (c, d) :: ys) + ({(item, ⟨q, p, e⟩)} + I)) T)
    (hwhich : which.toNat = xs.length) :
    ∃ h', h.cJsonReplaceItemInArray array which item = h'.cJsonDelete (some c) ∧
      h'.Holds (family array n (xs ++ (item, e) :: ys) + ({(c, ⟨none, none, d⟩)} + I)) T ∧
      Keeps h h' := by
  have hitem := getArrayItem_mid hh hwhich
  have hchild := first_eq_iff (d := d) hh.family_nodup
  have hfirst := first_without (d := d) hh.family_nodup (some item)
  rw [family_mid] at hh
  generalize first (xs ++ (c, d) :: ys) none = child at hh hchild hfirst
  have hget := hh.get
  have hh : h.Holds ({(item, ⟨q, p, e⟩)} + ({(c, ⟨first ys none, last none xs, d⟩)} +
      (chain none xs (some c) + (chain (some c) ys none +
        ({(array, withChild n child)} + I))))) T := hh.congr (by abel) rfl
  obtain ⟨h₁, hnext, hh₁, hk₁⟩ := hh.setNext (first ys none)
  obtain ⟨h₂, hprev, hh₂, hk₂⟩ := hh₁.setPrev (last none xs)
  have hh₂ : h₂.Holds (chain (some c) ys none + ({(item, ⟨first ys none, last none xs, e⟩)} +
      ({(c, ⟨first ys none, last none xs, d⟩)} + (chain none xs (some c) +
        ({(array, withChild n child)} + I))))) T := hh₂.congr (by abel) rfl
  obtain ⟨items₃, hprev₃, hh₃⟩ := hh₂.relinkPrev (some item)
  have hh₃ : CJsonHeap.Holds { h₂ with items := items₃ } ({(array, withChild n child)} +
      (chain none xs (some c) + ({(item, ⟨first ys none, last none xs, e⟩)} +
        ({(c, ⟨first ys none, last none xs, d⟩)} + (chain (some item) ys none + I))))) T :=
    hh₃.congr (by abel) rfl
  obtain ⟨h₄, hlink, hh₄, hk₄⟩ := hh₃.linkBefore hchild
  rw [hfirst] at hh₄
  have hh₄ : h₄.Holds ({(c, ⟨first ys none, last none xs, d⟩)} +
      ({(array, withChild n (first xs (some item)))} + (chain none xs (some item) +
        ({(item, ⟨first ys none, last none xs, e⟩)} + (chain (some item) ys none + I))))) T :=
    hh₄.congr (by abel) rfl
  obtain ⟨h₅, hset₅, hh₅, hk₅⟩ := hh₄.setPrev none
  obtain ⟨h₆, hset₆, hh₆, hk₆⟩ := hh₅.setNext none
  refine ⟨h₆, ?_, hh₆.congr ?_ rfl, hk₁.trans (hk₂.trans (Keeps.trans ⟨hk₄.fresh, hk₄.memory⟩
    (hk₅.trans hk₆)))⟩
  · exact bind_of_some hitem (bind_of_some hget (bind_of_some hnext (bind_of_some hprev
      (bind_of_some hprev₃ (bind_of_some hlink (bind_of_some hset₅ (bind_of_some hset₆ rfl)))))))
  · rw [family_add, chain_append, chain_cons, first_append, first_cons]
    abel

theorem cJsonReplaceItemInArray_behind (hh : h.Holds (family array n cells + I) T) {which : ℤ}
    (hwhich : cells.length ≤ which.toNat) (newitem : ℕ) :
    h.cJsonReplaceItemInArray array which newitem = some h :=
  bind_of_some (getArrayItem_behind hh hwhich) rfl

theorem cJsonDetachItemFromArray_behind (hh : h.Holds (family array n cells + I) T) {which : ℤ}
    (hwhich : cells.length ≤ which.toNat) :
    h.cJsonDetachItemFromArray array which = some (none, h) :=
  bind_of_some (getArrayItem_behind hh hwhich) rfl

end CJsonHeap

end OsaBase
