import Mathlib.Data.List.Find
import OsaBase.Json.Contexts

/-!
# The functions of `cJSON.c` on a forest

What each function does to the trees that the caller holds, when its arguments obey the rules: the
item that is added is one of these trees, and the array or object is an item in another one.
-/

open Blocks Json Links

namespace OsaBase

open CJsonHeap ItemTree

variable {D : Type} {h h' : CJsonHeap D} {F : Multiset (ItemTree D)}
  {G : Multiset (ℕ × List UInt8)} {m : ℕ → Bool} {k array : ℕ} {l : ItemLabel D} {C : Ctx D}
  {t u : ItemTree D} {xs ys children : List (ItemTree D)} {which : ℤ} {s : List UInt8}

/-! ## Adding -/

theorem stands_addItemToArray
    (hs : Stands h ⟨{C.plug (.item array l children)} + ({t} + F), G, k, m⟩) :
    ∃ h', h.cJsonAddItemToArray array (some t.addr) = some h' ∧
      Stands h' ⟨{C.plug (.item array l (children ++ [t]))} + F, G, k, m⟩ := by
  obtain ⟨N, I, T, hh, hstands⟩ := hs.family
  rw [forestBlocks_add, forestTexts_add, treeBlocks] at hh
  have hh : h.Holds (family array N (children.map top) + ({(t.addr, ⟨none, none, t.data⟩)} +
      (t.inner + (innerAll children + (I + forestBlocks F)))))
      (textsAll (children ++ [t]) + (T + (forestTexts F + G))) := by
    refine hh.congr (by abel) ?_
    rw [textsAll_append, textsAll, textsAll]
    abel
  obtain ⟨h', hadd, hh', hk⟩ := cJsonAddItemToArray_family hh
  refine ⟨h', hadd, ?_⟩
  have hs' := hstands h' (children ++ [t]) F G (hh'.congr ?_ rfl)
    (hk.memory.trans hs.memory)
  · rwa [hk.fresh, hs.fresh] at hs'
  · rw [List.map_append, List.map_singleton, innerAll_append, innerAll, innerAll, top]
    abel

/-! ## Detaching and deleting -/

theorem stands_getArrayItem (hs : Stands h ⟨{C.plug (.item array l children)} + F, G, k, m⟩)
    (which : ℤ) : h.cJsonGetArrayItem array which = some (firstOf (children.drop which.toNat)) := by
  obtain ⟨N, I, T, hh, -⟩ := hs.family
  rw [cJsonGetArrayItem_family hh, ← List.map_drop, first_top]

theorem stands_detachItemFromArray (which : ℤ)
    (hs : Stands h ⟨{C.plug (.item array l (xs ++ t :: ys))} + F, G, k, m⟩)
    (hwhich : which.toNat = xs.length) :
    ∃ h', h.cJsonDetachItemFromArray array which = some (some t.addr, h') ∧
      Stands h' ⟨{C.plug (.item array l (xs ++ ys))} + ({t} + F), G, k, m⟩ := by
  obtain ⟨N, I, T, hh, hstands⟩ := hs.family
  rw [List.map_append, List.map_cons] at hh
  obtain ⟨h', hdetach, hh', hk⟩ := cJsonDetachItemFromArray_family hh
    (hwhich.trans (List.length_map _).symm)
  refine ⟨h', hdetach, ?_⟩
  have hs' := hstands h' (xs ++ ys) ({t} + F) G (hh'.congr ?_ ?_)
    (hk.memory.trans hs.memory)
  · rwa [hk.fresh, hs.fresh] at hs'
  · rw [List.map_append, innerAll_append, innerAll_append, innerAll, forestBlocks_add, treeBlocks]
    abel
  · rw [textsAll_append, textsAll_append, textsAll, forestTexts_add]
    abel

theorem stands_detachItemFromArray_none
    (hs : Stands h ⟨{C.plug (.item array l children)} + F, G, k, m⟩)
    (hwhich : children.length ≤ which.toNat) :
    h.cJsonDetachItemFromArray array which = some (none, h) := by
  obtain ⟨N, I, T, hh, -⟩ := hs.family
  exact cJsonDetachItemFromArray_behind hh (by rwa [List.length_map])

theorem stands_delete (hs : Stands h ⟨{t} + F, G, k, m⟩) :
    ∃ h', h.cJsonDelete (some t.addr) = some h' ∧ Stands h' ⟨F, t.leaky + G, k, m⟩ := by
  have hh := hs.holds
  rw [forestBlocks_add, forestTexts_add, add_assoc, ← blocks_singleton] at hh
  obtain ⟨h', hdel, hh', hk⟩ := cJsonDelete_holds hh
  exact ⟨h', hdel, hh'.congr rfl (add_left_comm _ _ _), hk.fresh.trans hs.fresh,
    hk.memory.trans hs.memory⟩

theorem CJsonHeap.cJsonDelete_none (h : CJsonHeap D) : h.cJsonDelete none = some h := rfl

theorem stands_deleteItemFromArray
    (hs : Stands h ⟨{C.plug (.item array l (xs ++ t :: ys))} + F, G, k, m⟩)
    (hwhich : which.toNat = xs.length) :
    ∃ h', h.cJsonDeleteItemFromArray array which = some h' ∧
      Stands h' ⟨{C.plug (.item array l (xs ++ ys))} + F, t.leaky + G, k, m⟩ := by
  obtain ⟨h₁, hdetach, hs₁⟩ := stands_detachItemFromArray which hs hwhich
  rw [add_left_comm] at hs₁
  obtain ⟨h₂, hdelete, hs₂⟩ := stands_delete hs₁
  exact ⟨h₂, bind_of_some hdetach hdelete, hs₂⟩

/-! ## Inserting and replacing -/

theorem stands_insertItemInArray
    (hs : Stands h ⟨{C.plug (.item array l (xs ++ ys))} + ({t} + F), G, k, m⟩)
    (hwhich : xs.length = min which.toNat (xs ++ ys).length) :
    ∃ h', h.cJsonInsertItemInArray array which t.addr = some h' ∧
      Stands h' ⟨{C.plug (.item array l (xs ++ t :: ys))} + F, G, k, m⟩ := by
  obtain ⟨N, I, T, hh, hstands⟩ := hs.family
  have hstands' : ∀ {h' : CJsonHeap D},
      h'.Holds (family array N ((xs ++ t :: ys).map top) +
        (t.inner + (innerAll (xs ++ ys) + (I + forestBlocks F))))
        (textsAll (xs ++ ys) + (T + (t.texts + forestTexts F + G))) → Keeps h h' →
      Stands h' ⟨{C.plug (.item array l (xs ++ t :: ys))} + F, G, k, m⟩ := by
    intro h' hh' hk
    have hs' := hstands h' (xs ++ t :: ys) F G (hh'.congr ?_ ?_)
      (hk.memory.trans hs.memory)
    · rwa [hk.fresh, hs.fresh] at hs'
    · rw [innerAll_append, innerAll_append, innerAll]
      abel
    · rw [textsAll_append, textsAll_append, textsAll]
      abel
  rw [forestBlocks_add, forestTexts_add, treeBlocks] at hh
  have hh : h.Holds (family array N ((xs ++ ys).map top) + ({(t.addr, ⟨none, none, t.data⟩)} +
      (t.inner + (innerAll (xs ++ ys) + (I + forestBlocks F)))))
      (textsAll (xs ++ ys) + (T + (t.texts + forestTexts F + G))) := hh.congr (by abel) rfl
  rw [List.length_append] at hwhich
  cases ys with
  | nil =>
      rw [List.length_nil] at hwhich
      rw [List.append_nil] at hh hstands'
      obtain ⟨h', hinsert, hh', hk⟩ := cJsonInsertItemInArray_behind which hh
        (by rw [List.length_map]; omega)
      refine ⟨h', hinsert, hstands' (hh'.congr ?_ rfl) hk⟩
      rw [List.map_append]
      rfl
  | cons y ys =>
      rw [List.length_cons] at hwhich
      rw [List.map_append, List.map_cons] at hh
      obtain ⟨h', hinsert, hh', hk⟩ := cJsonInsertItemInArray_family which hh
        (by rw [List.length_map]; omega)
      refine ⟨h', hinsert, hstands' (hh'.congr ?_ rfl) hk⟩
      rw [List.map_append]
      rfl

theorem stands_replaceItemInArray (which : ℤ)
    (hs : Stands h ⟨{C.plug (.item array l (xs ++ u :: ys))} + ({t} + F), G, k, m⟩)
    (hwhich : which.toNat = xs.length) :
    ∃ h', h.cJsonReplaceItemInArray array which t.addr = some h' ∧
      Stands h' ⟨{C.plug (.item array l (xs ++ t :: ys))} + F, u.leaky + G, k, m⟩ := by
  obtain ⟨N, I, T, hh, hstands⟩ := hs.family
  rw [forestBlocks_add, forestTexts_add, treeBlocks, List.map_append, List.map_cons] at hh
  have hh : h.Holds (family array N (xs.map top ++ (u.addr, u.data) :: ys.map top) +
      ({(t.addr, ⟨none, none, t.data⟩)} + (t.inner + (innerAll (xs ++ u :: ys) +
        (I + forestBlocks F)))))
      (textsAll (xs ++ u :: ys) + (T + (t.texts + forestTexts F + G))) := by
    refine hh.congr ?_ rfl
    rw [top]
    abel
  obtain ⟨h₁, hreplace, hh₁, hk₁⟩ := cJsonReplaceItemInArray_family which hh
    (by rwa [List.length_map])
  have hs₁ := hstands h₁ (xs ++ t :: ys) ({u} + F) G (hh₁.congr ?_ ?_)
    (hk₁.memory.trans hs.memory)
  · rw [hk₁.fresh, hs.fresh, add_left_comm] at hs₁
    obtain ⟨h₂, hdel, hs₂⟩ := stands_delete hs₁
    exact ⟨h₂, hreplace.trans hdel, hs₂⟩
  · rw [List.map_append, List.map_cons, innerAll_append, innerAll_append, innerAll, innerAll,
      forestBlocks_add, treeBlocks, top]
    abel
  · rw [textsAll_append, textsAll_append, textsAll, textsAll, forestTexts_add]
    abel

theorem stands_replaceItemInArray_none
    (hs : Stands h ⟨{C.plug (.item array l children)} + F, G, k, m⟩)
    (hwhich : children.length ≤ which.toNat) (newitem : ℕ) :
    h.cJsonReplaceItemInArray array which newitem = some h := by
  obtain ⟨N, I, T, hh, -⟩ := hs.family
  exact cJsonReplaceItemInArray_behind hh (by rwa [List.length_map]) newitem

/-! ## Names -/

/-- The name that `cJSON_strdup` gives, when `malloc` gives the address `k`. -/
def strdupName (m : ℕ → Bool) (k : ℕ) (isConst : Bool) (s : List UInt8) : TreeName :=
  if m k then .block isConst k s else .none isConst

theorem isConst_strdupName (m : ℕ → Bool) (k : ℕ) (isConst : Bool) (s : List UInt8) :
    (strdupName m k isConst s).isConst = isConst := by
  rw [strdupName]
  split <;> rfl

theorem CJsonHeap.Holds.strdup {I : Multiset (ℕ × CJsonNode D)} {T : Multiset (ℕ × List UInt8)}
    (hh : h.Holds I T) (isConst : Bool) (s : List UInt8) :
    ∃ r h', h.cJsonStrdup (.caller s) = some (r, h') ∧
      r.map .block = (strdupName h.memory h.fresh isConst s).ptr ∧
      h'.Holds I ((strdupName h.memory h.fresh isConst s).text + T) ∧ Mallocs h h' := by
  rw [strdupName]
  cases hm : h.memory h.fresh with
  | false =>
      obtain ⟨h', hdup, hh', hc⟩ := hh.strdup_none hm (show h.chars (.caller s) = some s from rfl)
      exact ⟨none, h', hdup, rfl, hh'.congr rfl (zero_add T).symm, hc⟩
  | true =>
      obtain ⟨h', hdup, hh', hc⟩ := hh.strdup_some hm (show h.chars (.caller s) = some s from rfl)
      exact ⟨some h.fresh, h', hdup, rfl, hh', hc⟩

/-- A copy of `s` becomes the name of `t`. -/
theorem CJsonHeap.Holds.rename {I : Multiset (ℕ × CJsonNode D)} {T : Multiset (ℕ × List UInt8)}
    (hh : h.Holds (treeBlocks none none t + I) T) (s : List UInt8) :
    ∃ r h₁ h₂, h.cJsonStrdup (.caller s) = some (r, h₁) ∧
      h₁.write t.addr (fun d ↦ { d with string := r.map .block }) = some h₂ ∧
      h₂.Holds (treeBlocks none none
          (t.rename (strdupName h.memory h.fresh t.label.name.isConst s)) + I)
        ((strdupName h.memory h.fresh t.label.name.isConst s).text + T) ∧ Mallocs h h₂ := by
  obtain ⟨r, h₁, hdup, hptr, hh₁, hc₁⟩ := hh.strdup t.label.name.isConst s
  rw [treeBlocks, add_assoc] at hh₁
  obtain ⟨h₂, hwrite, hh₂, hk₂⟩ := hh₁.write fun d ↦ { d with string := r.map .block }
  refine ⟨r, h₁, h₂, hdup, hwrite, hh₂.congr ?_ rfl, hk₂.fresh.trans hc₁.fresh,
    hk₂.memory.trans hc₁.memory⟩
  rw [treeBlocks, addr_rename, inner_rename, data_rename, isConst_strdupName, ← hptr,
    ← data_stringIsConst, add_assoc]

/-- An item gets a name without the old one being freed. -/
theorem stands_overwriteName (hs : Stands h ⟨{t} + F, G, k, m⟩) (s : List UInt8) :
    ∃ r h₁ h₂, h.cJsonStrdup (.caller s) = some (r, h₁) ∧
      h₁.write t.addr (fun d ↦ { d with string := r.map .block }) = some h₂ ∧
      Stands h₂ ⟨{t.rename (strdupName m k t.label.name.isConst s)} + F, t.label.name.text + G,
        k + 1, m⟩ := by
  obtain ⟨hh, rfl, rfl⟩ := stands_iff.mp hs
  rw [forestBlocks_add, forestTexts_add] at hh
  obtain ⟨r, h₁, h₂, hdup, hwrite, hh₂, hc⟩ := hh.rename s
  refine ⟨r, h₁, h₂, hdup, hwrite, stands_iff.mpr ⟨hh₂.congr (forestBlocks_add _ _).symm ?_,
    hc.fresh, hc.memory⟩⟩
  rw [forestTexts_add, texts_rename, texts_eq]
  abel

theorem CJsonHeap.Holds.freeOwn {I : Multiset (ℕ × CJsonNode D)} {T : Multiset (ℕ × List UInt8)}
    {name : TreeName} (hh : h.Holds I (name.text + T)) (hown : ∀ s, name ≠ .caller s) :
    ∃ h', h.freeString name.ptr = some h' ∧ h'.Holds I T ∧ Keeps h h' := by
  cases name with
  | none isConst => exact ⟨h, rfl, hh.congr rfl (zero_add T), .refl h⟩
  | block isConst a s => exact hh.freeText
  | caller s => exact absurd rfl (hown s)

theorem stands_addItemToObject
    (hs : Stands h ⟨{C.plug (.item array l children)} + ({t} + F), G, k, m⟩)
    (hown : ∀ s, t.label.name ≠ .caller s) (s : List UInt8) :
    ∃ h', h.cJsonAddItemToObject array (.caller s) (some t.addr) = some h' ∧
      Stands h' ⟨{C.plug (.item array l
        (children ++ [t.rename (strdupName m k t.label.name.isConst s)]))} + F, G, k + 1, m⟩ := by
  obtain ⟨hh, rfl, rfl⟩ := stands_iff.mp hs
  rw [add_left_comm, forestBlocks_add, forestTexts_add, texts_eq] at hh
  have hdata : h.data t.addr = some t.data := by
    rw [treeBlocks, add_assoc] at hh
    exact hh.data
  obtain ⟨h₁, hfree, hh₁, hk₁⟩ := (hh.congr rfl (show _ = t.label.name.text + (t.otherTexts +
    (forestTexts ({C.plug (.item array l children)} + F) + G)) by abel)).freeOwn hown
  obtain ⟨r, h₂, h₃, hdup, hwrite, hh₃, hc⟩ := hh₁.rename s
  rw [hk₁.fresh, hk₁.memory] at hh₃
  have hs₃ : Stands h₃ ⟨{C.plug (.item array l children)} +
      ({t.rename (strdupName h.memory h.fresh t.label.name.isConst s)} + F), G, h.fresh + 1,
      h.memory⟩ := by
    refine stands_iff.mpr ⟨hh₃.congr ?_ ?_, hc.fresh.trans (congrArg (· + 1) hk₁.fresh),
      hc.memory.trans hk₁.memory⟩
    · rw [add_left_comm, forestBlocks_add (t.rename _)]
    · rw [add_left_comm {C.plug (.item array l children)}, forestTexts_add (t.rename _),
        texts_rename]
      abel
  obtain ⟨h₄, hadd, hs₄⟩ := stands_addItemToArray hs₃
  rw [addr_rename] at hadd
  refine ⟨h₄, bind_of_some hdata ?_, hs₄⟩
  rw [data_string]
  exact bind_of_some hfree (bind_of_some hdup (bind_of_some hwrite hadd))

theorem stands_addItemToObjectCs
    (hs : Stands h ⟨{C.plug (.item array l children)} + ({t} + F), G, k, m⟩) (s : List UInt8) :
    ∃ h', h.cJsonAddItemToObjectCs array (.caller s) (some t.addr) = some h' ∧
      Stands h' ⟨{C.plug (.item array l (children ++ [t.rename (.caller s)]))} + F,
        t.label.name.leaky + G, k, m⟩ := by
  obtain ⟨hh, rfl, rfl⟩ := stands_iff.mp hs
  rw [add_left_comm, forestBlocks_add, forestTexts_add, texts_eq] at hh
  have hdata : h.data t.addr = some t.data := by
    rw [treeBlocks, add_assoc] at hh
    exact hh.data
  obtain ⟨h₁, hfree, hh₁, hk₁⟩ := Holds.freeName (hh.congr rfl (show _ = t.label.name.text +
    (t.otherTexts + (forestTexts ({C.plug (.item array l children)} + F) + G)) by abel))
  rw [treeBlocks, add_assoc] at hh₁
  obtain ⟨h₂, hwrite, hh₂, hk₂⟩ := hh₁.write fun d ↦
    { d with string := some (.caller s), stringIsConst := true }
  have hs₂ : Stands h₂ ⟨{C.plug (.item array l children)} + ({t.rename (.caller s)} + F),
      t.label.name.leaky + G, h.fresh, h.memory⟩ := by
    refine stands_iff.mpr ⟨hh₂.congr ?_ ?_, hk₂.fresh.trans hk₁.fresh,
      hk₂.memory.trans hk₁.memory⟩
    · rw [add_left_comm {C.plug (.item array l children)}, forestBlocks_add (t.rename _),
        treeBlocks, addr_rename, inner_rename, data_rename, add_assoc]
      rfl
    · rw [add_left_comm {C.plug (.item array l children)}, forestTexts_add (t.rename _),
        texts_rename, TreeName.text, zero_add]
      abel
  obtain ⟨h₃, hadd, hs₃⟩ := stands_addItemToArray hs₂
  rw [addr_rename] at hadd
  refine ⟨h₃, bind_of_some hdata ?_, hs₃⟩
  rw [data_stringIsConst, data_string]
  exact bind_of_some hfree (bind_of_some hwrite hadd)

theorem stands_readable (hs : Stands h ⟨{C.plug (.item array l children)} + F, G, k, m⟩) :
    ∃ N I T, h.Holds (family array N (children.map top) + I) T ∧
      ∀ u ∈ children, u.label.name.Readable T := by
  obtain ⟨N, I, T, hh, -⟩ := hs.family
  exact ⟨N, _, _, hh, fun u hu ↦ (readable_textsAll hu).mono
    fun x hx ↦ Multiset.mem_add.mpr (.inl hx)⟩

theorem stands_seekName (hs : Stands h ⟨{C.plug (.item array l (xs ++ t :: ys))} + F, G, k, m⟩)
    (hxs : ∀ u ∈ xs, ¬u.Matches s) (ht : t.Matches s) :
    h.seekName array (.caller s) = some (xs.length, some t.addr) := by
  obtain ⟨N, I, T, hh, hread⟩ := stands_readable hs
  exact seekName_found hh hread hxs ht

theorem stands_seekName_none
    (hs : Stands h ⟨{C.plug (.item array l children)} + F, G, k, m⟩)
    (hchildren : ∀ u ∈ children, ¬u.Matches s) :
    h.seekName array (.caller s) = some (children.length, none) := by
  obtain ⟨N, I, T, hh, hread⟩ := stands_readable hs
  exact seekName_none hh hread hchildren

/-- The loop over the names finds the first child that matches. -/
theorem stands_getObjectItem (hs : Stands h ⟨{C.plug (.item array l children)} + F, G, k, m⟩)
    (s : List UInt8) : h.cJsonGetObjectItem array (.caller s) =
      some ((children.find? fun t ↦ decide (t.Matches s)).map addr) := by
  cases hfind : children.find? fun t ↦ decide (t.Matches s) with
  | none =>
      have hchildren : ∀ u ∈ children, ¬u.Matches s := fun u hu ↦
        of_decide_eq_false (Bool.eq_false_iff.mpr (List.find?_eq_none.mp hfind u hu))
      exact bind_of_some (stands_seekName_none hs hchildren) rfl
  | some t =>
      obtain ⟨ht, xs, ys, rfl, hxs⟩ := List.find?_eq_some_iff_append.mp hfind
      have hxs' : ∀ u ∈ xs, ¬u.Matches s := fun u hu ↦ by simpa using hxs u hu
      exact bind_of_some (stands_seekName hs hxs' (of_decide_eq_true ht)) rfl

theorem stands_detachItemFromObject
    (hs : Stands h ⟨{C.plug (.item array l (xs ++ t :: ys))} + F, G, k, m⟩)
    (hxs : ∀ u ∈ xs, ¬u.Matches s) (ht : t.Matches s) :
    ∃ h', h.cJsonDetachItemFromObject array (.caller s) = some (some t.addr, h') ∧
      Stands h' ⟨{C.plug (.item array l (xs ++ ys))} + ({t} + F), G, k, m⟩ := by
  obtain ⟨h', hdetach, hs'⟩ := stands_detachItemFromArray xs.length hs rfl
  exact ⟨h', bind_of_some (stands_seekName hs hxs ht) hdetach, hs'⟩

theorem stands_detachItemFromObject_none
    (hs : Stands h ⟨{C.plug (.item array l children)} + F, G, k, m⟩)
    (hchildren : ∀ u ∈ children, ¬u.Matches s) :
    h.cJsonDetachItemFromObject array (.caller s) = some (none, h) :=
  bind_of_some (stands_seekName_none hs hchildren) rfl

theorem stands_deleteItemFromObject
    (hs : Stands h ⟨{C.plug (.item array l (xs ++ t :: ys))} + F, G, k, m⟩)
    (hxs : ∀ u ∈ xs, ¬u.Matches s) (ht : t.Matches s) :
    ∃ h', h.cJsonDeleteItemFromObject array (.caller s) = some h' ∧
      Stands h' ⟨{C.plug (.item array l (xs ++ ys))} + F, t.leaky + G, k, m⟩ := by
  obtain ⟨h₁, hdetach, hs₁⟩ := stands_detachItemFromObject hs hxs ht
  rw [add_left_comm] at hs₁
  obtain ⟨h₂, hdelete, hs₂⟩ := stands_delete hs₁
  exact ⟨h₂, bind_of_some hdetach hdelete, hs₂⟩

theorem stands_replaceItemInObject
    (hs : Stands h ⟨{C.plug (.item array l (xs ++ u :: ys))} + ({t} + F), G, k, m⟩)
    (hxs : ∀ u ∈ xs, ¬u.Matches s) (hu : u.Matches s) :
    ∃ h', h.cJsonReplaceItemInObject array (.caller s) t.addr = some h' ∧
      Stands h' ⟨{C.plug (.item array l
          (xs ++ t.rename (strdupName m k t.label.name.isConst s) :: ys))} + F,
        u.leaky + (t.label.name.text + G), k + 1, m⟩ := by
  have hseek := stands_seekName hs hxs hu
  rw [add_left_comm] at hs
  obtain ⟨r, h₁, h₂, hdup, hwrite, hs₂⟩ := stands_overwriteName hs s
  rw [add_left_comm] at hs₂
  obtain ⟨h₃, hreplace, hs₃⟩ := stands_replaceItemInArray xs.length hs₂ rfl
  rw [addr_rename] at hreplace
  exact ⟨h₃, bind_of_some hseek (bind_of_some hdup (bind_of_some hwrite hreplace)), hs₃⟩

/-! ## References -/

/-- A reference to the item, at the address `k`. -/
def ItemTree.refer (u : ItemTree D) (k : ℕ) : ItemTree D :=
  .reference k { u.label with name := .none u.label.name.isConst } u.data.child

theorem data_refer (u : ItemTree D) (k : ℕ) :
    (u.refer k).data = { u.data with string := none, isReference := true } := by
  cases u <;> rfl

theorem stands_createReference (hs : Stands h ⟨F, G, k, m⟩) {F' : Multiset (ItemTree D)}
    (hu : F = {C.plug u} + F') :
    (m k = false ∧ ∃ h', h.createReference u.addr = some (none, h') ∧
        Stands h' ⟨F, G, k + 1, m⟩) ∨
      (m k = true ∧ ∃ h', h.createReference u.addr = some (some k, h') ∧
        Stands h' ⟨{u.refer k} + F, G, k + 1, m⟩) := by
  obtain ⟨hh, rfl, rfl⟩ := stands_iff.mp hs
  have hget : ∃ p q, h.items u.addr = some ⟨q, p, u.data⟩ := by
    obtain ⟨p, q, J, hJ⟩ := C.treeBlocks_plug u.addr none none
    rw [hu, forestBlocks_add, hJ u rfl, treeBlocks, add_assoc, add_assoc] at hh
    exact ⟨p, q, hh.get⟩
  obtain ⟨p, q, hget⟩ := hget
  cases hm : h.memory h.fresh with
  | false =>
      obtain ⟨h', hnew, hh', hc⟩ := hh.newItem_none hm (u.refer h.fresh).data
      rw [data_refer] at hnew
      exact .inl ⟨rfl, h', bind_of_some hget (congrArg some hnew),
        stands_iff.mpr ⟨hh', hc.fresh, hc.memory⟩⟩
  | true =>
      obtain ⟨h', hnew, hh', hc⟩ := hh.newItem_some hm (u.refer h.fresh).data
      rw [data_refer] at hnew
      refine .inr ⟨rfl, h', bind_of_some hget (congrArg some hnew),
        stands_iff.mpr ⟨hh'.congr ?_ ?_, hc.fresh, hc.memory⟩⟩
      · rw [forestBlocks_add, treeBlocks, refer, ItemTree.inner, add_zero]
        rfl
      · rw [forestTexts_add, refer, ItemTree.texts]
        exact (congrArg (· + G) (zero_add (forestTexts F))).symm

/-- The name of a reference is not a string, so `cJSON_AddItemToObject` has nothing to free. -/
theorem name_refer (u : ItemTree D) (k : ℕ) :
    (u.refer k).label.name = .none u.label.name.isConst := by
  cases u <;> rfl

theorem addr_refer (u : ItemTree D) (k : ℕ) : (u.refer k).addr = k := by
  cases u <;> rfl

theorem stands_addItemReferenceToArray {F' : Multiset (ItemTree D)} {C' : Ctx D}
    (hs : Stands h ⟨{C.plug (.item array l children)} + F, G, k, m⟩)
    (hu : {C.plug (.item array l children)} + F = {C'.plug u} + F') :
    ∃ h', h.cJsonAddItemReferenceToArray array u.addr = some h' ∧
      ((m k = false ∧ Stands h' ⟨{C.plug (.item array l children)} + F, G, k + 1, m⟩) ∨
        (m k = true ∧
          Stands h' ⟨{C.plug (.item array l (children ++ [u.refer k]))} + F, G, k + 1, m⟩)) := by
  rcases stands_createReference hs hu with ⟨hm, h₁, href, hs₁⟩ | ⟨hm, h₁, href, hs₁⟩
  · obtain ⟨N, I, T, hh, -⟩ := hs₁.family
    exact ⟨h₁, bind_of_some href (bind_of_some hh.family_data rfl), .inl ⟨hm, hs₁⟩⟩
  · rw [add_left_comm] at hs₁
    obtain ⟨h₂, hadd, hs₂⟩ := stands_addItemToArray hs₁
    rw [addr_refer] at hadd
    exact ⟨h₂, bind_of_some href hadd, .inr ⟨hm, hs₂⟩⟩

theorem stands_addItemReferenceToObject {F' : Multiset (ItemTree D)} {C' : Ctx D}
    (hs : Stands h ⟨{C.plug (.item array l children)} + F, G, k, m⟩)
    (hu : {C.plug (.item array l children)} + F = {C'.plug u} + F') (s : List UInt8) :
    ∃ h', h.cJsonAddItemReferenceToObject array (.caller s) u.addr = some h' ∧
      ((m k = false ∧ Stands h' ⟨{C.plug (.item array l children)} + F, G, k + 1, m⟩) ∨
        (m k = true ∧ Stands h' ⟨{C.plug (.item array l (children ++
          [(u.refer k).rename (strdupName m (k + 1) u.label.name.isConst s)]))} + F, G, k + 2,
            m⟩)) := by
  rcases stands_createReference hs hu with ⟨hm, h₁, href, hs₁⟩ | ⟨hm, h₁, href, hs₁⟩
  · exact ⟨h₁, bind_of_some href rfl, .inl ⟨hm, hs₁⟩⟩
  · rw [add_left_comm] at hs₁
    have hown : ∀ s, (u.refer k).label.name ≠ .caller s := by
      intro s hname
      rw [name_refer] at hname
      cases hname
    obtain ⟨h₂, hadd, hs₂⟩ := stands_addItemToObject hs₁ hown s
    rw [addr_refer] at hadd
    rw [name_refer] at hs₂
    exact ⟨h₂, bind_of_some href hadd, .inr ⟨hm, hs₂⟩⟩

/-! ## New items -/

theorem stands_newItem_none (hs : Stands h ⟨F, G, k, m⟩) (hk : m k = false) (d : CJsonData D) :
    ∃ h', h.newItem d = (none, h') ∧ Stands h' ⟨F, G, k + 1, m⟩ := by
  obtain ⟨hh, rfl, rfl⟩ := stands_iff.mp hs
  obtain ⟨h', hnew, hh', hc⟩ := hh.newItem_none hk d
  exact ⟨h', hnew, stands_iff.mpr ⟨hh', hc.fresh, hc.memory⟩⟩

theorem stands_newItem_some (hs : Stands h ⟨F, G, k, m⟩) (hk : m k = true) {l : ItemLabel D}
    (hvalue : l.valuestring = none) (hname : l.name.text = 0) :
    ∃ h', h.newItem ⟨l.info, none, false⟩ = (some k, h') ∧
      Stands h' ⟨{.item k l []} + F, G, k + 1, m⟩ := by
  obtain ⟨hh, rfl, rfl⟩ := stands_iff.mp hs
  obtain ⟨h', hnew, hh', hc⟩ := hh.newItem_some hk ⟨l.info, none, false⟩
  refine ⟨h', hnew, stands_iff.mpr ⟨hh'.congr ?_ ?_, hc.fresh, hc.memory⟩⟩
  · rw [forestBlocks_add, ← blocks_singleton, blocks_leaf]
  · rw [forestTexts_add, texts_leaf, ItemLabel.value_none hvalue, hname, zero_add, zero_add]

theorem stands_newItem (hs : Stands h ⟨F, G, k, m⟩) {l : ItemLabel D}
    (hvalue : l.valuestring = none) (hname : l.name.text = 0) :
    (m k = false ∧ ∃ h', h.newItem ⟨l.info, none, false⟩ = (none, h') ∧
        Stands h' ⟨F, G, k + 1, m⟩) ∨
      (m k = true ∧ ∃ h', h.newItem ⟨l.info, none, false⟩ = (some k, h') ∧
        Stands h' ⟨{.item k l []} + F, G, k + 1, m⟩) := by
  cases hk : m k with
  | false => exact .inl ⟨rfl, stands_newItem_none hs hk _⟩
  | true => exact .inr ⟨rfl, stands_newItem_some hs hk hvalue hname⟩

/-! ## Copies -/

namespace ItemTree

mutual

/-- There is no reference in the tree. -/
def Plain : ItemTree D → Prop
  | item _ _ children => PlainAll children
  | reference _ _ _ => False

def PlainAll : List (ItemTree D) → Prop
  | [] => True
  | t :: ts => Plain t ∧ PlainAll ts

end

theorem readable_label {a : ℕ} {l : ItemLabel D} {children : List (ItemTree D)}
    {T : Multiset (ℕ × List UInt8)} (hT : (item a l children).texts ⊆ T) : l.Readable T where
  value := fun x hx ↦ hT <| by
    rw [texts, ItemLabel.value_some hx]
    exact Multiset.mem_add.mpr (.inl (Multiset.mem_add.mpr (.inl (Multiset.mem_singleton_self _))))
  name := (readable_texts (item a l children)).mono hT

mutual

theorem seen_plain {I : Multiset (ℕ × CJsonNode D)} {T : Multiset (ℕ × List UInt8)} :
    ∀ {t : ItemTree D} {p q : Option ℕ}, t.Plain → treeBlocks p q t ⊆ I → t.texts ⊆ T → Seen I T t
  | item a l children, p, q, hplain, hI, hT => by
    refine ⟨⟨⟨q, p, (item a l children).data⟩, hI ?_, rfl, rfl⟩, readable_label hT,
      seenAll_plain hplain (p := none) (fun x hx ↦ hI ?_) fun x hx ↦ hT ?_⟩
    · rw [treeBlocks]
      exact Multiset.mem_add.mpr (.inl (Multiset.mem_singleton_self _))
    · rw [treeBlocks, inner_item]
      exact Multiset.mem_add.mpr (.inr hx)
    · rw [texts]
      exact Multiset.mem_add.mpr (.inr hx)
  | reference _ _ _, _, _, hplain, _, _ => hplain.elim

theorem seenAll_plain {I : Multiset (ℕ × CJsonNode D)} {T : Multiset (ℕ × List UInt8)} :
    ∀ {ts : List (ItemTree D)} {p : Option ℕ}, PlainAll ts → blocks p ts ⊆ I → textsAll ts ⊆ T →
      SeenAll I T ts
  | [], _, _, _, _ => trivial
  | t :: ts, p, hplain, hI, hT => by
    rw [blocks_cons] at hI
    rw [textsAll] at hT
    refine ⟨seen_plain hplain.1 (p := p) (q := firstOf ts) (fun x hx ↦ hI ?_)
      fun x hx ↦ hT (Multiset.mem_add.mpr (.inl hx)), ⟨⟨firstOf ts, p, t.data⟩, hI ?_, rfl⟩,
      seenAll_plain hplain.2 (p := some t.addr) (fun x hx ↦ hI ?_)
        fun x hx ↦ hT (Multiset.mem_add.mpr (.inr hx))⟩
    · rw [treeBlocks] at hx
      rcases Multiset.mem_add.mp hx with hx | hx
      · exact Multiset.mem_add.mpr (.inl hx)
      · exact Multiset.mem_add.mpr (.inr (Multiset.mem_add.mpr (.inl hx)))
    · exact Multiset.mem_add.mpr (.inl (Multiset.mem_singleton_self _))
    · exact Multiset.mem_add.mpr (.inr (Multiset.mem_add.mpr (.inr hx)))

end

end ItemTree

/-- What a call of `cJSON_Duplicate` may do to a forest. -/
def Copied (Q : ItemTree D → Prop) (flagged : Multiset (List UInt8)) (s : Forest D)
    (r : Option ℕ) (s' : Forest D) : Prop :=
  s'.memory = s.memory ∧
    ((r = none ∧ (∃ a, s.fresh ≤ a ∧ a < s'.fresh ∧ s.memory a = false) ∧ s'.trees = s.trees ∧
        ∃ lost, s'.lost = lost + s.lost ∧ lost.map Prod.snd ≤ flagged) ∨
      ∃ t, r = some t.addr ∧ Q t ∧ s'.trees = {t} + s.trees ∧ s'.lost = s.lost)

theorem stands_duplicate (hs : Stands h ⟨F, G, k, m⟩) {F' : Multiset (ItemTree D)}
    (hu : F = {C.plug u} + F') (hplain : u.Plain) :
    ∃ r h' s', h.cJsonDuplicate (some u.addr) true = some (r, h') ∧ Stands h' s' ∧
      Copied u.Copies u.flagged ⟨F, G, k, m⟩ r s' := by
  obtain ⟨hh, rfl, rfl⟩ := stands_iff.mp hs
  obtain ⟨p, q, J, hJ⟩ := C.treeBlocks_plug u.addr none none
  have hseen : Seen (forestBlocks F) (forestTexts F + G) u := by
    refine seen_plain hplain (p := p) (q := q) (fun x hx ↦ ?_) fun x hx ↦ ?_
    · rw [hu, forestBlocks_add, hJ u rfl]
      exact Multiset.mem_add.mpr (.inl (Multiset.mem_add.mpr (.inl hx)))
    · rw [hu, forestTexts_add, Ctx.texts_plug]
      exact Multiset.mem_add.mpr (.inl (Multiset.mem_add.mpr (.inl (Multiset.mem_add.mpr
        (.inl hx)))))
  obtain ⟨r, h', hdup, hg, hcases⟩ := duplicates u h _ _ _ hh hseen (hseen.depth_le hh)
  rcases hcases with ⟨rfl, hfail, lost, hh', hlost⟩ | ⟨t, rfl, hcopy, hh'⟩
  · refine ⟨none, h', ⟨F, lost + G, h'.fresh, h.memory⟩, hdup, stands_iff.mpr ⟨hh'.congr rfl ?_,
      rfl, hg.memory⟩, rfl, .inl ⟨rfl, hfail, rfl, lost, rfl, hlost⟩⟩
    abel
  · refine ⟨some t.addr, h', ⟨{t} + F, G, h'.fresh, h.memory⟩, hdup, stands_iff.mpr
      ⟨hh'.congr ?_ ?_, rfl, hg.memory⟩, rfl, .inr ⟨t, rfl, hcopy, rfl, rfl⟩⟩
    · rw [forestBlocks_add, blocks_singleton]
    · rw [forestTexts_add, add_assoc]

/-- A copy without the children. -/
theorem stands_duplicateItem {a : ℕ} (hs : Stands h ⟨F, G, k, m⟩) {F' : Multiset (ItemTree D)}
    (hu : F = {C.plug (.item a l children)} + F') :
    ∃ r h' s', h.cJsonDuplicate (some a) false = some (r, h') ∧ Stands h' s' ∧
      Copied (ItemTree.item a l []).Copies 0 ⟨F, G, k, m⟩ r s' := by
  obtain ⟨hh, rfl, rfl⟩ := stands_iff.mp hs
  obtain ⟨p, q, J, hJ⟩ := C.treeBlocks_plug a none none
  have hn : (a, ⟨q, p, (ItemTree.item a l children).data⟩) ∈ forestBlocks F := by
    rw [hu, forestBlocks_add, hJ _ rfl, treeBlocks]
    exact Multiset.mem_add.mpr (.inl (Multiset.mem_add.mpr (.inl (Multiset.mem_add.mpr
      (.inl (Multiset.mem_singleton_self _))))))
  have hread : l.Readable (forestTexts F + G) := by
    have htexts : (ItemTree.item a l children).texts ⊆ forestTexts F + G := fun x hx ↦ by
      rw [hu, forestTexts_add, Ctx.texts_plug]
      exact Multiset.mem_add.mpr (.inl (Multiset.mem_add.mpr (.inl (Multiset.mem_add.mpr
        (.inl hx)))))
    exact readable_label htexts
  obtain ⟨r, h', hdup, hg, hcases⟩ := duplicateItem_holds hh hn rfl hread
  rcases hcases with ⟨rfl, hfail, hh'⟩ | ⟨b, l', rfl, hcopy, hh'⟩
  · exact ⟨none, h', ⟨F, G, h'.fresh, h.memory⟩, bind_of_some hdup rfl,
      stands_iff.mpr ⟨hh', rfl, hg.memory⟩, rfl,
      .inl ⟨rfl, hfail, rfl, 0, (zero_add G).symm, Multiset.zero_le _⟩⟩
  · refine ⟨some b, h', ⟨{.item b l' []} + F, G, h'.fresh, h.memory⟩, bind_of_some hdup rfl,
      stands_iff.mpr ⟨hh'.congr ?_ ?_, rfl, hg.memory⟩, rfl,
      .inr ⟨.item b l' [], rfl, ⟨hcopy, trivial⟩, rfl, rfl⟩⟩
    · rw [forestBlocks_add, blocks_singleton]
    · rw [forestTexts_add, add_assoc]

/-! ## Names that are the caller's -/

/-- A name that is the caller's is freed, although the flag `cJSON_StringIsConst` says so. -/
theorem cJsonAddItemToObject_stuck_iff
    (hs : Stands h ⟨{C.plug (.item array l children)} + ({t} + F), G, k, m⟩) (s : List UInt8) :
    h.cJsonAddItemToObject array (.caller s) (some t.addr) = none ↔
      ∃ s', t.label.name = .caller s' := by
  constructor
  · intro hstuck
    by_contra hcaller
    obtain ⟨h', hadd, -⟩ := stands_addItemToObject hs (fun s' hs' ↦ hcaller ⟨s', hs'⟩) s
    rw [hstuck] at hadd
    cases hadd
  · rintro ⟨s', hname⟩
    have hh := hs.holds
    rw [add_left_comm, forestBlocks_add, treeBlocks, add_assoc] at hh
    refine bind_of_some hh.data ?_
    rw [data_string, hname]
    rfl

/-- Two items that were created one after the other. -/
theorem stands_pair (d : D) : ∃ h : CJsonHeap D, ∃ l : ItemLabel D, l.name = .none false ∧
    Stands h ⟨{Ctx.hole.plug (.item 1 l [])} + ({.item 0 l []} + 0), 0, 2, fun _ ↦ true⟩ := by
  let l : ItemLabel D := ⟨.object, none, 0, d, .none false⟩
  obtain ⟨h₁, -, hs₁⟩ := stands_newItem_some (l := l) (stands_empty fun _ ↦ true) rfl rfl rfl
  obtain ⟨h₂, -, hs₂⟩ := stands_newItem_some (l := l) hs₁ rfl rfl rfl
  exact ⟨h₂, l, rfl, hs₂⟩

/-- An object with an item whose name is the caller's. -/
theorem stands_named : ∃ h : CJsonHeap ℕ, ∃ l t : ItemLabel ℕ, ∃ G,
    Stands h ⟨{Ctx.hole.plug (.item 1 l ([] ++ [.item 0 { t with name := .caller [] } []]))} + 0,
      G, 2, fun _ ↦ true⟩ := by
  obtain ⟨h₁, l, -, hs₁⟩ := stands_pair 0
  obtain ⟨h₂, -, hs₂⟩ := stands_addItemToObjectCs hs₁ []
  exact ⟨h₂, l, l, _, hs₂⟩

theorem cJsonAddItemToObject_stuck_iff_detached :
    ∃ h : CJsonHeap ℕ, h.cJsonAddItemToObject 1 (.caller []) (some 0) = none := by
  obtain ⟨h, l, t, G, hs⟩ := stands_named
  obtain ⟨h', -, hs'⟩ := stands_detachItemFromArray (C := .hole) 0 hs rfl
  exact ⟨h', (cJsonAddItemToObject_stuck_iff (C := .hole) hs' []).mpr ⟨[], rfl⟩⟩

/-! ## Lookups -/

theorem firstOf_drop (ts : List (ItemTree D)) (i : ℕ) : firstOf (ts.drop i) = ts[i]?.map addr := by
  induction ts generalizing i with
  | nil =>
      rw [List.drop_nil, List.getElem?_nil]
      rfl
  | cons t ts ih =>
      cases i with
      | zero => rfl
      | succ i => exact ih i

/-- The lookups find what the list of the children has: by name the first child whose name is the
same with every letter made small. -/
theorem cJsonGet_children (hs : Stands h ⟨{C.plug (.item array l children)} + F, G, k, m⟩) :
    h.cJsonGetArraySize array = some children.length ∧
      (∀ which, h.cJsonGetArrayItem array which = some (children[which.toNat]?.map addr)) ∧
      ∀ s, h.cJsonGetObjectItem array (.caller s) =
          some ((children.find? fun t ↦ decide (t.Matches s)).map addr) ∧
        (0 ∉ s → (∀ t ∈ children, ∀ name ∈ t.label.name.chars, 0 ∉ name) →
          h.cJsonGetObjectItem array (.caller s) =
            some ((children.find? fun t ↦ decide (t.label.name.chars.map (List.map tolower) =
              some (s.map tolower))).map addr)) := by
  refine ⟨?_, fun which ↦ ?_, fun s ↦ ⟨stands_getObjectItem hs s, fun hnul hnames ↦ ?_⟩⟩
  · obtain ⟨N, I, T, hh, -⟩ := hs.family
    rw [cJsonGetArraySize_family hh, List.length_map]
  · rw [stands_getArrayItem hs, firstOf_drop]
  · rw [stands_getObjectItem hs]
    refine congrArg (fun r : Option (ItemTree D) ↦ some (r.map addr)) ?_
    exact List.find?_congr fun t ht ↦
      decide_eq_decide.mpr (ItemTree.matches_iff hnul (hnames t ht))

/-- An object with two members. -/
theorem stands_members : ∃ (h : CJsonHeap ℕ) (l : ItemLabel ℕ) (G : Multiset (ℕ × List UInt8)),
    l.valuestring = none ∧ l.name = .none false ∧ Stands h ⟨{Ctx.hole.plug (.item 2 l
      [.item 1 { l with name := .caller [byte 'a'] } [],
        .item 0 { l with name := .caller [byte 'B'] } []])} + 0, G, 3, fun _ ↦ true⟩ := by
  let l : ItemLabel ℕ := ⟨.object, none, 0, 0, .none false⟩
  obtain ⟨h₁, -, hs₁⟩ := stands_newItem_some (l := l) (stands_empty fun _ ↦ true) rfl rfl rfl
  obtain ⟨h₂, -, hs₂⟩ := stands_newItem_some (l := l) hs₁ rfl rfl rfl
  obtain ⟨h₃, -, hs₃⟩ := stands_newItem_some (l := l) hs₂ rfl rfl rfl
  obtain ⟨h₄, -, hs₄⟩ := stands_addItemToObjectCs (C := .hole) hs₃ [byte 'a']
  obtain ⟨h₅, -, hs₅⟩ := stands_addItemToObjectCs (C := .hole) hs₄ [byte 'B']
  exact ⟨h₅, l, _, rfl, rfl, hs₅⟩

theorem cJsonGet_children_members :
    ∃ h : CJsonHeap ℕ, h.cJsonGetArraySize 2 = some 2 ∧ h.cJsonGetArrayItem 2 1 = some (some 0) ∧
      h.cJsonGetArrayItem 2 2 = some none ∧
      h.cJsonGetObjectItem 2 (.caller [byte 'A']) = some (some 1) ∧
      h.cJsonGetObjectItem 2 (.caller [byte 'b']) = some (some 0) ∧
      h.cJsonGetObjectItem 2 (.caller [byte 'c']) = some none := by
  obtain ⟨h, l, G, -, -, hs⟩ := stands_members
  obtain ⟨hsize, hget, hname⟩ := cJsonGet_children hs
  have hnames : ∀ t ∈ [ItemTree.item 1 { l with name := .caller [byte 'a'] } [],
      .item 0 { l with name := .caller [byte 'B'] } []], ∀ name ∈ t.label.name.chars,
        0 ∉ name := by
    simp only [List.forall_mem_cons, label, TreeName.chars, Option.mem_some_iff, forall_eq']
    decide
  exact ⟨h, hsize, hget 1, hget 2, (hname [byte 'A']).2 (by decide) hnames,
    (hname [byte 'b']).2 (by decide) hnames, (hname [byte 'c']).2 (by decide) hnames⟩

/-! ## Edits of the list -/

theorem exists_split {ts : List (ItemTree D)} {i : ℕ} {u : ItemTree D} (hi : ts[i]? = some u) :
    ∃ xs ys, ts = xs ++ u :: ys ∧ i = xs.length := by
  induction ts generalizing i with
  | nil => cases hi
  | cons t ts ih =>
      cases i with
      | zero => exact ⟨[], ts, congrArg (· :: ts) (Option.some.inj hi), rfl⟩
      | succ i =>
          obtain ⟨xs, ys, rfl, rfl⟩ := ih hi
          exact ⟨t :: xs, ys, rfl, rfl⟩

theorem insertIdx_append (xs ys : List (ItemTree D)) (t : ItemTree D) :
    (xs ++ ys).insertIdx xs.length t = xs ++ t :: ys := by
  induction xs with
  | nil => rfl
  | cons x xs ih => exact congrArg (x :: ·) ih

/-- The edits of an array are those of the list of its children. -/
theorem cJsonEdit_children
    (hs : Stands h ⟨{C.plug (.item array l children)} + ({t} + F), G, k, m⟩) (which : ℤ) :
    (∃ h', h.cJsonInsertItemInArray array which t.addr = some h' ∧
        Stands h' ⟨{C.plug (.item array l
          (children.insertIdx (min which.toNat children.length) t))} + F, G, k, m⟩) ∧
      (∀ u, children[which.toNat]? = some u →
        (∃ h', h.cJsonReplaceItemInArray array which t.addr = some h' ∧
          Stands h' ⟨{C.plug (.item array l (children.set which.toNat t))} + F,
            u.leaky + G, k, m⟩) ∧
        ∃ h', h.cJsonDetachItemFromArray array which = some (some u.addr, h') ∧
          Stands h' ⟨{C.plug (.item array l (children.eraseIdx which.toNat))} + ({u} + ({t} + F)),
            G, k, m⟩) ∧
      (children[which.toNat]? = none →
        h.cJsonReplaceItemInArray array which t.addr = some h ∧
          h.cJsonDetachItemFromArray array which = some (none, h)) := by
  refine ⟨?_, fun u hu ↦ ?_, fun hnone ↦ ?_⟩
  · obtain ⟨xs, ys, rfl, hxs⟩ : ∃ xs ys, children = xs ++ ys ∧
        xs.length = min which.toNat children.length :=
      ⟨children.take which.toNat, children.drop which.toNat, (List.take_append_drop _ _).symm,
        List.length_take⟩
    obtain ⟨h', hinsert, hs'⟩ := stands_insertItemInArray hs hxs
    rw [← hxs, insertIdx_append]
    exact ⟨h', hinsert, hs'⟩
  · obtain ⟨xs, ys, rfl, hwhich⟩ := exists_split hu
    obtain ⟨h₁, hreplace, hs₁⟩ := stands_replaceItemInArray which hs hwhich
    obtain ⟨h₂, hdetach, hs₂⟩ := stands_detachItemFromArray which hs hwhich
    have hset : (xs ++ u :: ys).set xs.length t = xs ++ t :: ys := by simp
    have herase : (xs ++ u :: ys).eraseIdx xs.length = xs ++ ys := by
      rw [List.eraseIdx_append_of_length_le le_rfl, Nat.sub_self]
      rfl
    rw [hwhich, hset, herase]
    exact ⟨⟨h₁, hreplace, hs₁⟩, h₂, hdetach, hs₂⟩
  · have hwhich := List.getElem?_eq_none_iff.mp hnone
    exact ⟨stands_replaceItemInArray_none hs hwhich _, stands_detachItemFromArray_none hs hwhich⟩

/-- In an array of two items the second is replaced and the first is taken out. -/
theorem cJsonEdit_children_members :
    ∃ h h₁ h₂ h₃ : CJsonHeap ℕ, h.cJsonInsertItemInArray 2 1 3 = some h₁ ∧
      h₁.cJsonGetArrayItem 2 2 = some (some 0) ∧
      h.cJsonReplaceItemInArray 2 1 3 = some h₂ ∧ h₂.cJsonGetArrayItem 2 1 = some (some 3) ∧
      h₂.items 0 = none ∧
      h.cJsonDetachItemFromArray 2 0 = some (some 1, h₃) ∧
      h₃.cJsonGetArrayItem 2 0 = some (some 0) ∧
      h.cJsonDetachItemFromArray 2 5 = some (none, h) := by
  obtain ⟨h₀, l, G, hvalue, hname, hs₀⟩ := stands_members
  obtain ⟨h, -, hs⟩ := stands_newItem_some hs₀ rfl hvalue (congrArg TreeName.text hname)
  rw [add_left_comm] at hs
  obtain ⟨⟨h₁, hinsert, hs₁⟩, hedit, -⟩ := cJsonEdit_children (C := .hole) hs 1
  obtain ⟨⟨h₂, hreplace, hs₂⟩, -⟩ := hedit _ rfl
  obtain ⟨-, hdetach, -⟩ := cJsonEdit_children (C := .hole) hs 0
  obtain ⟨-, h₃, hfirst, hs₃⟩ := hdetach _ rfl
  obtain ⟨-, -, hnone⟩ := cJsonEdit_children (C := .hole) hs 5
  have hfree : h₂.items 0 = none := hs₂.holds.items.free_iff.mpr fun n hn ↦ by
    rw [forestBlocks_add] at hn
    simp [treeBlocks, ItemTree.inner, innerAll, Ctx.plug, top, addr, forestBlocks] at hn
  exact ⟨h, h₁, h₂, h₃, hinsert, stands_getArrayItem hs₁ 2, hreplace, stands_getArrayItem hs₂ 1,
    hfree, hfirst, stands_getArrayItem hs₃ 0, (hnone rfl).2⟩

section CDouble

variable [CDouble D]

open CDouble

/-- An item of a type that has neither a string nor children. -/
def plainLabel (type : CJsonType) : ItemLabel D := ⟨type, none, 0, ofInt 0, .none false⟩

def numberLabel (num : D) : ItemLabel D := ⟨.number, none, toInt num, num, .none false⟩

/-- The label of a string, if there was memory for its copy at the address `k`. -/
def stringLabel (m : ℕ → Bool) (k : ℕ) (s : List UInt8) : ItemLabel D :=
  ⟨.string, if m k then some (k, s) else none, 0, ofInt 0, .none false⟩

theorem stands_createString (hs : Stands h ⟨F, G, k, m⟩) (s : List UInt8) :
    (m k = false ∧ ∃ h', h.cJsonCreateString (.caller s) = some (none, h') ∧
        Stands h' ⟨F, G, k + 1, m⟩) ∨
      (m k = true ∧ ∃ h', h.cJsonCreateString (.caller s) = some (some k, h') ∧
        Stands h' ⟨{.item k (stringLabel m (k + 1) s) []} + F, G, k + 2, m⟩) := by
  rcases stands_newItem hs (l := plainLabel .string) rfl rfl with
    ⟨hm, h₁, hnew, hs₁⟩ | ⟨hm, h₁, hnew, hs₁⟩
  · exact .inl ⟨hm, h₁, congrArg (orNull · _) hnew, hs₁⟩
  · refine .inr ⟨hm, ?_⟩
    obtain ⟨hh₁, hfresh, hmemory⟩ := stands_iff.mp hs₁
    obtain ⟨r, h₂, hdup, hptr, hh₂, hc₂⟩ := hh₁.strdup false s
    rw [forestBlocks_add, ← blocks_singleton, blocks_leaf] at hh₂
    obtain ⟨h₃, hwrite, hh₃, hk₃⟩ := hh₂.write fun d ↦ { d with valuestring := r }
    rw [hfresh, hmemory, strdupName] at hptr hh₃
    have hr : r = if m (k + 1) then some (k + 1) else none := by
      cases hm' : m (k + 1) <;>
        rw [hm'] at hptr <;>
        cases r <;>
        cases hptr <;>
        rfl
    refine ⟨h₃, (congrArg (orNull · _) hnew).trans (bind_of_some hdup (bind_of_some hwrite rfl)),
      stands_iff.mpr ⟨hh₃.congr ?_ ?_, ?_, ?_⟩⟩
    · rw [forestBlocks_add, ← blocks_singleton, blocks_leaf, hr, stringLabel]
      cases m (k + 1) <;> rfl
    · have hplain : (plainLabel .string : ItemLabel D).value = 0 := ItemLabel.value_none rfl
      have hvalue : (if m (k + 1) then TreeName.block false (k + 1) s else .none false).text =
          (stringLabel m (k + 1) s : ItemLabel D).value := by
        rw [ItemLabel.value, stringLabel]
        cases m (k + 1) <;> rfl
      have hnames : (plainLabel .string : ItemLabel D).name.text = 0 ∧
          (stringLabel m (k + 1) s : ItemLabel D).name.text = 0 := ⟨rfl, rfl⟩
      rw [forestTexts_add, forestTexts_add, texts_leaf, texts_leaf, hplain, hvalue, hnames.1,
        hnames.2]
      abel
    · rw [hk₃.fresh, hc₂.fresh, hfresh]
    · rw [hk₃.memory, hc₂.memory, hmemory]

end CDouble

end OsaBase
