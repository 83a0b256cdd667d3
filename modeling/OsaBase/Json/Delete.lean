import OsaBase.Json.Holds

/-!
# `cJSON_Delete`

What is left when trees are deleted: each of their blocks is freed, and none of them twice.
-/

open Json Links

namespace OsaBase

namespace CJsonHeap

open ItemTree

variable {D : Type} {h : CJsonHeap D} {I : Multiset (ℕ × CJsonNode D)}
  {T : Multiset (ℕ × List UInt8)}

/-- Of trees in a chain, all blocks are freed but those of the strings that the flag protects. -/
def Deletes (ts : List (ItemTree D)) : Prop :=
  ∀ (h : CJsonHeap D) (p : Option ℕ) (I : Multiset (ℕ × CJsonNode D))
    (T : Multiset (ℕ × List UInt8)) (fuel : ℕ),
    h.Holds (blocks p ts + I) (textsAll ts + T) → sizeAll ts ≤ fuel →
    ∃ h', deleteLoop fuel h (firstOf ts) = some h' ∧ h'.Holds I (leakyAll ts + T) ∧ Keeps h h'

theorem deletes_nil : Deletes ([] : List (ItemTree D)) := by
  intro h p I T fuel hh _
  rw [blocks, innerAll, textsAll, List.map_nil, chain_nil, zero_add, zero_add, zero_add] at hh
  refine ⟨h, ?_, ?_, .refl h⟩
  · cases fuel <;> rfl
  · rwa [leakyAll, zero_add]

theorem deletes_item {a : ℕ} {l : ItemLabel D} {children ts : List (ItemTree D)}
    (hchildren : Deletes children) (hts : Deletes ts) : Deletes (.item a l children :: ts) := by
  intro h p I T fuel hh hfuel
  rw [sizeAll, ItemTree.size] at hfuel
  obtain ⟨fuel, rfl⟩ : ∃ k, fuel = k + 1 := ⟨fuel - 1, by omega⟩
  rw [blocks_cons, inner_item, textsAll, ItemTree.texts] at hh
  generalize hn : (⟨firstOf ts, p, (ItemTree.item a l children).data⟩ : CJsonNode D) = n at hh
  have hnext : n.next = firstOf ts := by rw [← hn]
  have hdata : n.data = ⟨l.info, firstOf children, false⟩ := by rw [← hn]; rfl
  have hh : h.Holds (blocks none children + ({(a, n)} + (blocks (some a) ts + I)))
      (textsAll children + (l.value + (l.name.text + (textsAll ts + T)))) :=
    hh.congr (by rw [ItemTree.addr]; abel) (by abel)
  have hget : h.Holds ({(a, n)} + (blocks none children + (blocks (some a) ts + I))) _ :=
    hh.congr (by abel) rfl
  obtain ⟨h₁, hdel₁, hh₁, hk₁⟩ := hchildren h none _ _ fuel hh (by omega)
  have hh₁ : h₁.Holds ({(a, n)} + (blocks (some a) ts + I))
      (l.value + (l.name.text + (leakyAll children + (textsAll ts + T)))) :=
    hh₁.congr rfl (by abel)
  obtain ⟨h₂, hdel₂, hh₂, hk₂⟩ := hh₁.freeValue
  obtain ⟨h₃, hdel₃, hh₃, hk₃⟩ := hh₂.freeName
  obtain ⟨h₄, hdel₄, hh₄, hk₄⟩ := hh₃.freeItem
  obtain ⟨h₅, hdel₅, hh₅, hk₅⟩ := hts h₄ (some a) I
    (l.name.leaky + (leakyAll children + T)) fuel (hh₄.congr rfl (by abel)) (by omega)
  refine ⟨h₅, ?_, hh₅.congr rfl (by rw [leakyAll, ItemTree.leaky]; abel),
    hk₁.trans (hk₂.trans (hk₃.trans (hk₄.trans hk₅)))⟩
  rw [firstOf, ItemTree.addr, deleteLoop]
  refine bind_of_some hget.get (bind_of_some hget.data ?_)
  rw [hdata, hnext]
  refine bind_of_some hdel₁ (bind_of_some hh₁.data ?_)
  rw [hdata]
  exact bind_of_some hdel₂ (bind_of_some hdel₃ (bind_of_some hdel₄ hdel₅))

theorem deletes_reference {a : ℕ} {l : ItemLabel D} {child : Option ℕ} {ts : List (ItemTree D)}
    (hts : Deletes ts) : Deletes (.reference a l child :: ts) := by
  intro h p I T fuel hh hfuel
  rw [sizeAll, ItemTree.size] at hfuel
  obtain ⟨fuel, rfl⟩ : ∃ k, fuel = k + 1 := ⟨fuel - 1, by omega⟩
  rw [blocks_cons, ItemTree.inner, textsAll, ItemTree.texts] at hh
  generalize hn : (⟨firstOf ts, p, (ItemTree.reference a l child).data⟩ : CJsonNode D) = n at hh
  have hnext : n.next = firstOf ts := by rw [← hn]
  have hdata : n.data = ⟨l.info, child, true⟩ := by rw [← hn]; rfl
  have hh : h.Holds ({(a, n)} + (blocks (some a) ts + I)) (l.name.text + (textsAll ts + T)) :=
    hh.congr (by rw [ItemTree.addr]; abel) (by abel)
  obtain ⟨h₁, hdel₁, hh₁, hk₁⟩ := hh.freeName
  obtain ⟨h₂, hdel₂, hh₂, hk₂⟩ := hh₁.freeItem
  obtain ⟨h₃, hdel₃, hh₃, hk₃⟩ := hts h₂ (some a) I (l.name.leaky + T) fuel
    (hh₂.congr rfl (by abel)) (by omega)
  refine ⟨h₃, ?_, hh₃.congr rfl (by rw [leakyAll, ItemTree.leaky]; abel),
    hk₁.trans (hk₂.trans hk₃)⟩
  rw [firstOf, ItemTree.addr, deleteLoop]
  refine bind_of_some hh.get (bind_of_some hh.data ?_)
  rw [hdata, hnext]
  refine bind_of_some rfl (bind_of_some hh.data ?_)
  rw [hdata]
  exact bind_of_some rfl (bind_of_some hdel₁ (bind_of_some hdel₂ hdel₃))

mutual

theorem deletes_tree : ∀ (t : ItemTree D) {ts : List (ItemTree D)}, Deletes ts → Deletes (t :: ts)
  | .item _ _ children => deletes_item (deletes children)
  | .reference _ _ _ => deletes_reference

theorem deletes : ∀ ts : List (ItemTree D), Deletes ts
  | [] => deletes_nil
  | t :: ts => deletes_tree t (deletes ts)

end

/-- `cJSON_Delete` of a tree that stands alone frees its blocks and no others. -/
theorem cJsonDelete_holds {t : ItemTree D} (hh : h.Holds (blocks none [t] + I) (t.texts + T)) :
    ∃ h', h.cJsonDelete (some t.addr) = some h' ∧ h'.Holds I (t.leaky + T) ∧ Keeps h h' := by
  have hcard := hh.card_le
  rw [Multiset.card_add, card_blocks] at hcard
  have htexts : textsAll [t] = t.texts := by rw [textsAll, textsAll, add_zero]
  have hleaky : leakyAll [t] = t.leaky := by rw [leakyAll, leakyAll, add_zero]
  rw [← htexts] at hh
  obtain ⟨h', hdel, hh', hk⟩ := deletes [t] h none I T (h.fresh + 1) hh (by omega)
  rw [hleaky] at hh'
  exact ⟨h', hdel, hh', hk⟩

end CJsonHeap

end OsaBase
