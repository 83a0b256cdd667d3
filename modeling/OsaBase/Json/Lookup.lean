import OsaBase.Json.Duplicate

/-!
# Items by name

The loops that look for a name come to the first child whose name is the same but for the case of
its letters.
-/

open Blocks Json Links

namespace OsaBase

variable {D : Type}

/-- The name of the item is `s`, but for the case. -/
def ItemTree.Matches (s : List UInt8) (t : ItemTree D) : Prop :=
  cJsonStrcasecmp t.label.name.chars (some s) = 0

instance (s : List UInt8) (t : ItemTree D) : Decidable (t.Matches s) :=
  inferInstanceAs (Decidable (_ = _))

theorem tolower_ne_zero {c : UInt8} (hc : c ≠ 0) : tolower c ≠ 0 := by
  rw [tolower]
  split
  · next h =>
    intro hzero
    have hle : 65 ≤ c.toNat := UInt8.le_iff_toNat_le.mp h.1
    have hle' : c.toNat ≤ 90 := UInt8.le_iff_toNat_le.mp h.2
    have hadd : (c + 32).toNat = (c.toNat + 32) % 2 ^ 8 := UInt8.toNat_add c 32
    rw [hzero, UInt8.toNat_zero] at hadd
    omega
  · exact hc

/-- The strings are the same but for the case. -/
theorem strcasecmpLoop_eq_zero {s t : List UInt8} (hs : 0 ∉ s) (ht : 0 ∉ t) :
    strcasecmpLoop s t = 0 ↔ s.map tolower = t.map tolower := by
  have hpos : ∀ {c : UInt8}, c ≠ 0 → (tolower c).toNat ≠ 0 := fun hc hzero ↦
    tolower_ne_zero hc (UInt8.toNat_inj.mp hzero)
  induction s generalizing t with
  | nil =>
      cases t with
      | nil => exact iff_of_true rfl rfl
      | cons d t =>
          have hd := hpos (Ne.symm (List.ne_of_not_mem_cons ht))
          refine iff_of_false (fun h ↦ hd ?_) (List.cons_ne_nil _ _).symm
          rw [strcasecmpLoop] at h
          omega
  | cons c s ih =>
      cases t with
      | nil =>
          have hc := hpos (Ne.symm (List.ne_of_not_mem_cons hs))
          refine iff_of_false (fun h ↦ hc ?_) (List.cons_ne_nil _ _)
          rw [strcasecmpLoop] at h
          omega
      | cons d t =>
          rw [strcasecmpLoop, List.map_cons, List.map_cons, List.cons.injEq]
          split
          · next heq =>
            exact (ih (List.not_mem_of_not_mem_cons hs) (List.not_mem_of_not_mem_cons ht)).trans
              (and_iff_right heq).symm
          · next hne =>
            refine iff_of_false (fun h ↦ hne (UInt8.toNat_inj.mp ?_)) fun h ↦ hne h.1
            omega

theorem ItemTree.matches_iff {s : List UInt8} {t : ItemTree D} (hs : 0 ∉ s)
    (ht : ∀ name ∈ t.label.name.chars, 0 ∉ name) :
    t.Matches s ↔ t.label.name.chars.map (List.map tolower) = some (s.map tolower) := by
  rw [Matches]
  cases hname : t.label.name.chars with
  | none => exact iff_of_false Int.one_ne_zero (Option.some_ne_none _).symm
  | some name =>
      rw [Option.map_some, Option.some_inj]
      exact strcasecmpLoop_eq_zero (ht name hname) hs

namespace CJsonHeap

open ItemTree

variable {h : CJsonHeap D} {I : Multiset (ℕ × CJsonNode D)} {T : Multiset (ℕ × List UInt8)}
  {object : ℕ} {n : CJsonNode D} {s : List UInt8} {t : ItemTree D} {ts us : List (ItemTree D)}

theorem data_string (t : ItemTree D) : t.data.string = t.label.name.ptr := by
  cases t <;> rfl

theorem hasName_name {name : TreeName} (hh : h.Holds I T) (hread : name.Readable T)
    (hname : n.data.string = name.ptr) :
    h.hasName (.caller s) n = some (decide (cJsonStrcasecmp name.chars (some s) = 0)) := by
  rw [hasName, hname]
  refine bind_of_some rfl ?_
  cases name with
  | none isConst => rfl
  | block isConst a s' =>
      have hchars : h.chars (.block a) = some s' := hh.texts.get_of_mem hread
      exact congrArg
        (Option.map fun name ↦ decide (cJsonStrcasecmp (some name) (some s) = 0)) hchars
  | caller s' => rfl

theorem hasName_mem (hh : h.Holds I T) (hread : ∀ t ∈ ts, t.label.name.Readable T) {a : ℕ}
    {p q : Option ℕ} (hn : (a, n) ∈ chain p (ts.map top) q) :
    ∃ t ∈ ts, h.hasName (.caller s) n = some (decide (t.Matches s)) := by
  obtain ⟨t, ht, htop⟩ := List.mem_map.mp (mem_chain hn)
  obtain ⟨-, hdata⟩ := Prod.mk.inj htop
  exact ⟨t, ht, hasName_name hh (hread t ht) (by rw [← hdata, data_string])⟩

/-- The children before the first match are passed. -/
theorem seekName_pass {p : Option ℕ} (us : List (ItemTree D))
    (hh : h.Holds (chain p ((ts ++ us).map top) none + I) T)
    (hread : ∀ t ∈ ts, t.label.name.Readable T) (hts : ∀ t ∈ ts, ¬t.Matches s)
    (hlen : ts.length ≤ h.fresh) :
    seek h.items (h.hasName (.caller s)) h.fresh 0 (firstOf (ts ++ us)) =
      seek h.items (h.hasName (.caller s)) (h.fresh - ts.length) ts.length (firstOf us) := by
  rw [List.map_append, chain_append, first_top, add_assoc] at hh
  have hstop : ∀ a n, (a, n) ∈ chain p (ts.map top) (firstOf us) →
      h.hasName (.caller s) n = some false := by
    intro a n hn
    obtain ⟨t, ht, hname⟩ := hasName_mem hh hread hn
    rw [hname, decide_eq_false (hts t ht)]
  have hseek := seek_pass _ hh.items hstop 0 (h.fresh - ts.length)
  have hfirst : first (ts.map top) (firstOf us) = firstOf (ts ++ us) := by
    rw [← first_top, ← first_top, List.map_append, first_append]
  rw [hfirst, List.length_map, Nat.add_sub_cancel' hlen, Nat.zero_add] at hseek
  exact hseek

/-- The first match among the children, with the number of children before it. -/
theorem seekName_found (hh : h.Holds (family object n ((ts ++ t :: us).map top) + I) T)
    (hread : ∀ u ∈ ts ++ t :: us, u.label.name.Readable T) (hts : ∀ u ∈ ts, ¬u.Matches s)
    (ht : t.Matches s) : h.seekName object (.caller s) = some (ts.length, some t.addr) := by
  have hlen := hh.family_length
  rw [List.length_map, List.length_append, List.length_cons] at hlen
  have hdata := hh.family_data
  rw [first_top] at hdata
  rw [family_add] at hh
  have hpass := seekName_pass _ hh (fun u hu ↦ hread u (List.mem_append_left _ hu)) hts (by omega)
  obtain ⟨k, hk⟩ : ∃ k, h.fresh - ts.length = k + 1 := ⟨h.fresh - ts.length - 1, by omega⟩
  have hnode : h.items t.addr = some ⟨firstOf us, last none (ts.map top), t.data⟩ := by
    refine hh.items.get_of_mem (Multiset.mem_add.mpr (.inl ?_))
    rw [List.map_append, List.map_cons, chain_append, top, chain_cons, first_top]
    exact Multiset.mem_add.mpr (.inr (Multiset.mem_add.mpr (.inl (Multiset.mem_singleton_self _))))
  have hname : h.hasName (.caller s) ⟨firstOf us, last none (ts.map top), t.data⟩ = some true :=
    (hasName_name hh (hread t (by simp)) (data_string t)).trans (congrArg some (decide_eq_true ht))
  refine bind_of_some hdata (hpass.trans ?_)
  rw [hk]
  exact seek_hit hnode hname _ _

theorem seekName_none (hh : h.Holds (family object n (ts.map top) + I) T)
    (hread : ∀ u ∈ ts, u.label.name.Readable T) (hts : ∀ u ∈ ts, ¬u.Matches s) :
    h.seekName object (.caller s) = some (ts.length, none) := by
  have hlen := hh.family_length
  rw [List.length_map] at hlen
  have hdata := hh.family_data
  rw [first_top] at hdata
  rw [family_add] at hh
  have hpass := seekName_pass [] (hh.congr (by rw [List.append_nil]) rfl) hread hts
    hlen.le
  rw [List.append_nil] at hpass
  exact bind_of_some hdata (hpass.trans (seek_none _ _ _ _))

end CJsonHeap

end OsaBase
