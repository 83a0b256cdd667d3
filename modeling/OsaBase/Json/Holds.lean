import Mathlib.Data.Multiset.Range
import OsaBase.Json.Forest

/-!
# The blocks that a heap holds

The items and the strings that are allocated, and how the steps of the code change them.
-/

open Blocks Json Links

namespace OsaBase

theorem bind_of_some {α β : Type} {x : Option α} {f : α → Option β} {a : α} {r : Option β}
    (hx : x = some a) (hf : f a = r) : x >>= f = r := by
  subst hx
  exact hf

namespace CJsonHeap

variable {D : Type}

/-- The items and the strings that are allocated. -/
structure Holds (h : CJsonHeap D) (I : Multiset (ℕ × CJsonNode D))
    (T : Multiset (ℕ × List UInt8)) : Prop where
  items : Owns h.items I
  texts : Owns h.texts T
  items_lt : ∀ x ∈ I, x.1 < h.fresh
  texts_lt : ∀ x ∈ T, x.1 < h.fresh

/-- `malloc` is not called. -/
structure Keeps (h h' : CJsonHeap D) : Prop where
  fresh : h'.fresh = h.fresh
  memory : h'.memory = h.memory

variable {h h' : CJsonHeap D} {I I' : Multiset (ℕ × CJsonNode D)}
  {T T' : Multiset (ℕ × List UInt8)} {a : ℕ} {n n' : CJsonNode D} {s : List UInt8}

theorem holds_empty (m : ℕ → Bool) : (empty m : CJsonHeap D).Holds 0 0 where
  items := owns_nil
  texts := owns_nil
  items_lt := fun x hx ↦ absurd hx (Multiset.notMem_zero x)
  texts_lt := fun x hx ↦ absurd hx (Multiset.notMem_zero x)

theorem Keeps.refl (h : CJsonHeap D) : Keeps h h := ⟨rfl, rfl⟩

theorem Keeps.trans {h'' : CJsonHeap D} (hk : Keeps h h') (hk' : Keeps h' h'') : Keeps h h'' :=
  ⟨hk'.fresh.trans hk.fresh, hk'.memory.trans hk.memory⟩

/-! ## Steps -/

theorem Holds.congr (hh : h.Holds I T) (hI : I = I') (hT : T = T') : h.Holds I' T' := by
  subst hI hT
  exact hh

theorem Holds.get (hh : h.Holds ({(a, n)} + I) T) : h.items a = some n := hh.items.get

theorem Holds.data (hh : h.Holds ({(a, n)} + I) T) : h.data a = some n.data := by
  rw [CJsonHeap.data, hh.get, Option.map_some]

/-- The block of an item is written. -/
theorem Holds.set (hh : h.Holds ({(a, n)} + I) T) (n' : CJsonNode D) :
    ({ h with items := Function.update h.items a (some n') } : CJsonHeap D).Holds
      ({(a, n')} + I) T where
  items := hh.items.set n'
  texts := hh.texts
  items_lt := by
    intro x hx
    rw [Multiset.mem_add, Multiset.mem_singleton] at hx
    rcases hx with rfl | hx
    · exact hh.items_lt (a, n) (Multiset.mem_add.mpr (.inl (Multiset.mem_singleton_self _)))
    · exact hh.items_lt x (Multiset.mem_add.mpr (.inr hx))
  texts_lt := hh.texts_lt

theorem Holds.write (hh : h.Holds ({(a, n)} + I) T) (f : CJsonData D → CJsonData D) :
    ∃ h', h.write a f = some h' ∧ h'.Holds ({(a, { n with data := f n.data })} + I) T ∧
      Keeps h h' := by
  refine ⟨_, ?_, hh.set { n with data := f n.data }, rfl, rfl⟩
  rw [CJsonHeap.write, hh.get, Option.map_some]

theorem Holds.setNext (hh : h.Holds ({(a, n)} + I) T) (q : Option ℕ) :
    ∃ h', h.setNext a q = some h' ∧ h'.Holds ({(a, { n with next := q })} + I) T ∧
      Keeps h h' := by
  refine ⟨_, ?_, hh.set { n with next := q }, rfl, rfl⟩
  rw [CJsonHeap.setNext, Links.setNext, hh.get, Option.map_some, Option.map_some]

theorem Holds.setPrev (hh : h.Holds ({(a, n)} + I) T) (p : Option ℕ) :
    ∃ h', h.setPrev a p = some h' ∧ h'.Holds ({(a, { n with prev := p })} + I) T ∧
      Keeps h h' := by
  refine ⟨_, ?_, hh.set { n with prev := p }, rfl, rfl⟩
  rw [CJsonHeap.setPrev, Links.setPrev, hh.get, Option.map_some, Option.map_some]

theorem Holds.freeItem (hh : h.Holds ({(a, n)} + I) T) :
    ∃ h', h.freeItem a = some h' ∧ h'.Holds I T ∧ Keeps h h' := by
  refine ⟨{ h with items := Function.update h.items a none }, ?_,
    ⟨hh.items.free, hh.texts, fun x hx ↦ ?_, hh.texts_lt⟩, rfl, rfl⟩
  · rw [CJsonHeap.freeItem, hh.get, Option.map_some]
  · exact hh.items_lt x (Multiset.mem_add.mpr (.inr hx))

theorem Holds.freeText (hh : h.Holds I ({(a, s)} + T)) :
    ∃ h', h.freeText a = some h' ∧ h'.Holds I T ∧ Keeps h h' := by
  refine ⟨{ h with texts := Function.update h.texts a none }, ?_,
    ⟨hh.items, hh.texts.free, hh.items_lt, fun x hx ↦ ?_⟩, rfl, rfl⟩
  · rw [CJsonHeap.freeText, hh.texts.get, Option.map_some]
  · exact hh.texts_lt x (Multiset.mem_add.mpr (.inr hx))

/-- The `valuestring` of an item is freed. -/
theorem Holds.freeValue {l : ItemLabel D} (hh : h.Holds I (l.value + T)) :
    ∃ h', h.freeString ((l.valuestring.map Prod.fst).map .block) = some h' ∧ h'.Holds I T ∧
      Keeps h h' := by
  cases hv : l.valuestring with
  | none =>
      rw [ItemLabel.value_none hv, zero_add] at hh
      exact ⟨h, rfl, hh, .refl h⟩
  | some x =>
      rw [ItemLabel.value_some hv] at hh
      exact hh.freeText

/-- The name of an item is freed with it, unless the flag is set. -/
theorem Holds.freeName {name : TreeName} (hh : h.Holds I (name.text + T)) :
    ∃ h', (if name.isConst then some h else h.freeString name.ptr) = some h' ∧
      h'.Holds I (name.leaky + T) ∧ Keeps h h' := by
  cases name with
  | none isConst =>
      refine ⟨h, ?_, hh, .refl h⟩
      cases isConst <;> rfl
  | block isConst a s =>
      cases isConst with
      | true => exact ⟨h, rfl, hh, .refl h⟩
      | false =>
          rw [TreeName.leaky_eq_zero rfl, zero_add]
          exact hh.freeText
  | caller s => exact ⟨h, rfl, hh, .refl h⟩

/-- One more call of `malloc`. -/
structure Mallocs (h h' : CJsonHeap D) : Prop where
  fresh : h'.fresh = h.fresh + 1
  memory : h'.memory = h.memory

/-- `malloc` is called any number of times. -/
structure Grows (h h' : CJsonHeap D) : Prop where
  fresh : h.fresh ≤ h'.fresh
  memory : h'.memory = h.memory

/-- One of the calls of `malloc` fails. -/
def Fails (h h' : CJsonHeap D) : Prop := ∃ a, h.fresh ≤ a ∧ a < h'.fresh ∧ h.memory a = false

theorem Grows.refl (h : CJsonHeap D) : Grows h h := ⟨le_rfl, rfl⟩

theorem Grows.trans {h'' : CJsonHeap D} (hg : Grows h h') (hg' : Grows h' h'') : Grows h h'' :=
  ⟨hg.fresh.trans hg'.fresh, hg'.memory.trans hg.memory⟩

theorem Keeps.grows (hk : Keeps h h') : Grows h h' := ⟨hk.fresh.ge, hk.memory⟩

theorem Mallocs.grows (hc : Mallocs h h') : Grows h h' :=
  ⟨(Nat.le_succ _).trans hc.fresh.ge, hc.memory⟩

theorem Mallocs.fails (hc : Mallocs h h') (hm : h.memory h.fresh = false) : Fails h h' :=
  ⟨h.fresh, le_rfl, (Nat.lt_succ_self _).trans_eq hc.fresh.symm, hm⟩

theorem Grows.fails {h'' : CJsonHeap D} (hg : Grows h h') (hf : Fails h' h'') : Fails h h'' := by
  obtain ⟨a, hle, hlt, hm⟩ := hf
  exact ⟨a, hg.fresh.trans hle, hlt, hg.memory ▸ hm⟩

theorem Fails.trans {h'' : CJsonHeap D} (hf : Fails h h') (hg : Grows h' h'') : Fails h h'' := by
  obtain ⟨a, hle, hlt, hm⟩ := hf
  exact ⟨a, hle, hlt.trans_le hg.fresh, hm⟩

theorem Holds.newItem_none (hh : h.Holds I T) (hm : h.memory h.fresh = false) (d : CJsonData D) :
    ∃ h', h.newItem d = (none, h') ∧ h'.Holds I T ∧ Mallocs h h' := by
  refine ⟨{ h with fresh := h.fresh + 1 }, ?_, ⟨hh.items, hh.texts, ?_, ?_⟩, rfl, rfl⟩
  · rw [newItem, malloc, hm]
    rfl
  · exact fun x hx ↦ Nat.lt_succ_of_lt (hh.items_lt x hx)
  · exact fun x hx ↦ Nat.lt_succ_of_lt (hh.texts_lt x hx)

theorem Holds.newItem_some (hh : h.Holds I T) (hm : h.memory h.fresh = true) (d : CJsonData D) :
    ∃ h', h.newItem d = (some h.fresh, h') ∧
      h'.Holds ({(h.fresh, ⟨none, none, d⟩)} + I) T ∧ Mallocs h h' := by
  have hfree : h.items h.fresh = none :=
    hh.items.free_iff.mpr fun n hn ↦ (hh.items_lt _ hn).false
  refine ⟨{ h with
    items := Function.update h.items h.fresh (some ⟨none, none, d⟩), fresh := h.fresh + 1 }, ?_,
    ⟨hh.items.alloc hfree _, hh.texts, ?_, ?_⟩, rfl, rfl⟩
  · rw [newItem, malloc, hm]
    rfl
  · intro x hx
    rw [Multiset.mem_add, Multiset.mem_singleton] at hx
    rcases hx with rfl | hx
    · exact Nat.lt_succ_self _
    · exact Nat.lt_succ_of_lt (hh.items_lt x hx)
  · exact fun x hx ↦ Nat.lt_succ_of_lt (hh.texts_lt x hx)

theorem Holds.strdup_none (hh : h.Holds I T) (hm : h.memory h.fresh = false) {str : CharPtr}
    (hs : h.chars str = some s) :
    ∃ h', h.cJsonStrdup str = some (none, h') ∧ h'.Holds I T ∧ Mallocs h h' := by
  refine ⟨{ h with fresh := h.fresh + 1 }, ?_, ⟨hh.items, hh.texts, ?_, ?_⟩, rfl, rfl⟩
  · rw [cJsonStrdup, hs, Option.map_some, malloc, hm]
    rfl
  · exact fun x hx ↦ Nat.lt_succ_of_lt (hh.items_lt x hx)
  · exact fun x hx ↦ Nat.lt_succ_of_lt (hh.texts_lt x hx)

theorem Holds.strdup_some (hh : h.Holds I T) (hm : h.memory h.fresh = true) {str : CharPtr}
    (hs : h.chars str = some s) :
    ∃ h', h.cJsonStrdup str = some (some h.fresh, h') ∧ h'.Holds I ({(h.fresh, s)} + T) ∧
      Mallocs h h' := by
  have hfree : h.texts h.fresh = none :=
    hh.texts.free_iff.mpr fun n hn ↦ (hh.texts_lt _ hn).false
  refine ⟨{ h with texts := Function.update h.texts h.fresh (some s), fresh := h.fresh + 1 }, ?_,
    ⟨hh.items, hh.texts.alloc hfree _, ?_, ?_⟩, rfl, rfl⟩
  · rw [cJsonStrdup, hs, Option.map_some, malloc, hm]
    rfl
  · exact fun x hx ↦ Nat.lt_succ_of_lt (hh.items_lt x hx)
  · intro x hx
    rw [Multiset.mem_add, Multiset.mem_singleton] at hx
    rcases hx with rfl | hx
    · exact Nat.lt_succ_self _
    · exact Nat.lt_succ_of_lt (hh.texts_lt x hx)

/-- There are not more items than addresses given out. -/
theorem Holds.card_le (hh : h.Holds I T) : I.card ≤ h.fresh := by
  have hle : I.map Prod.fst ≤ Multiset.range h.fresh := by
    refine (Multiset.le_iff_subset hh.items.nodup).mpr fun a ha ↦ ?_
    obtain ⟨x, hx, rfl⟩ := Multiset.mem_map.mp ha
    exact Multiset.mem_range.mpr (hh.items_lt x hx)
  have hcard := Multiset.card_le_card hle
  rwa [Multiset.card_map, Multiset.card_range] at hcard

end CJsonHeap

end OsaBase
