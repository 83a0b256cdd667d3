import Mathlib.Data.Finset.Card
import OsaBase.Json.Edits

/-!
# `cJSON_Duplicate`

The tree that is seen from an item, when the child pointers are followed whether they belong to the
item or not, and its copy: either all of it is there, or nothing is left of it but the names that
the flag `cJSON_StringIsConst` protects from being freed.
-/

open Blocks Json Links

namespace OsaBase

variable {D : Type}

/-- The name, if it has the flag. -/
def TreeName.flagged (name : TreeName) : Multiset (List UInt8) :=
  if name.isConst then name.chars.elim 0 fun s ↦ {s} else 0

/-- A name that is a block is among the blocks. -/
def TreeName.Readable (T : Multiset (ℕ × List UInt8)) : TreeName → Prop
  | .block _ a s => (a, s) ∈ T
  | _ => True

theorem TreeName.Readable.mono {name : TreeName} {T T' : Multiset (ℕ × List UInt8)}
    (h : name.Readable T) (hT : T ⊆ T') : name.Readable T' := by
  cases name with
  | none isConst => trivial
  | block isConst a s => exact hT h
  | caller s => trivial

structure ItemLabel.Readable (l : ItemLabel D) (T : Multiset (ℕ × List UInt8)) : Prop where
  value : ∀ x ∈ l.valuestring, x ∈ T
  name : l.name.Readable T

/-- A copy has strings of its own, and the flag of the name. -/
structure ItemLabel.Copies (l l' : ItemLabel D) : Prop where
  type : l'.type = l.type
  valuestring : l'.valuestring.map Prod.snd = l.valuestring.map Prod.snd
  valueint : l'.valueint = l.valueint
  valuedouble : l'.valuedouble = l.valuedouble
  isConst : l'.name.isConst = l.name.isConst
  chars : l'.name.chars = l.name.chars
  own : ∀ s, l'.name ≠ .caller s

namespace ItemTree

mutual

/-- The names with the flag in a tree. -/
def flagged : ItemTree D → Multiset (List UInt8)
  | item _ l children => l.name.flagged + flaggedAll children
  | reference _ l _ => l.name.flagged

def flaggedAll : List (ItemTree D) → Multiset (List UInt8)
  | [] => 0
  | t :: ts => flagged t + flaggedAll ts

end

mutual

def Copies : ItemTree D → ItemTree D → Prop
  | item _ l children, item _ l' children' => l.Copies l' ∧ CopiesAll children children'
  | _, _ => False

def CopiesAll : List (ItemTree D) → List (ItemTree D) → Prop
  | [], [] => True
  | t :: ts, t' :: ts' => Copies t t' ∧ CopiesAll ts ts'
  | _, _ => False

end

mutual

/-- The tree is what is seen among the blocks from its root. -/
def Seen (I : Multiset (ℕ × CJsonNode D)) (T : Multiset (ℕ × List UInt8)) : ItemTree D → Prop
  | item a l children =>
    (∃ n, (a, n) ∈ I ∧ n.data.toCJsonInfo = l.info ∧ n.data.child = firstOf children) ∧
      l.Readable T ∧ SeenAll I T children
  | reference _ _ _ => False

def SeenAll (I : Multiset (ℕ × CJsonNode D)) (T : Multiset (ℕ × List UInt8)) :
    List (ItemTree D) → Prop
  | [] => True
  | t :: ts => Seen I T t ∧ (∃ n, (t.addr, n) ∈ I ∧ n.next = firstOf ts) ∧ SeenAll I T ts

end

theorem leaky_copy {l l' : ItemLabel D} (h : l.Copies l') :
    l'.name.leaky.map Prod.snd = l.name.flagged := by
  rw [TreeName.flagged, ← h.isConst, ← h.chars]
  cases hname : l'.name with
  | none isConst => cases isConst <;> rfl
  | block isConst a s => cases isConst <;> rfl
  | caller s => exact absurd hname (h.own s)

mutual

theorem Copies.toItem : ∀ {t t' : ItemTree D}, Copies t t' → t'.toItem = t.toItem
  | item _ l children, item _ l' children', h => by
    obtain ⟨hl, hchildren⟩ := h
    rw [ItemTree.toItem, ItemTree.toItem, hl.type, hl.valuestring, hl.valueint, hl.valuedouble,
      hl.chars, hchildren.toItems]
  | item _ _ _, reference _ _ _, h => h.elim
  | reference _ _ _, _, h => h.elim

theorem CopiesAll.toItems : ∀ {ts ts' : List (ItemTree D)}, CopiesAll ts ts' →
    toItems ts' = toItems ts
  | [], [], _ => rfl
  | t :: ts, t' :: ts', h => by
    rw [ItemTree.toItems, ItemTree.toItems, h.1.toItem, h.2.toItems]
  | [], _ :: _, h => h.elim
  | _ :: _, [], h => h.elim

end

mutual

/-- The names of the copy that are not freed with it are those with the flag. -/
theorem Copies.leaky : ∀ {t t' : ItemTree D}, Copies t t' → t'.leaky.map Prod.snd = t.flagged
  | item _ l children, item _ l' children', h => by
    obtain ⟨hl, hchildren⟩ := h
    rw [ItemTree.leaky, flagged, Multiset.map_add, leaky_copy hl, hchildren.leaky]
  | item _ _ _, reference _ _ _, h => h.elim
  | reference _ _ _, _, h => h.elim

theorem CopiesAll.leaky : ∀ {ts ts' : List (ItemTree D)}, CopiesAll ts ts' →
    (leakyAll ts').map Prod.snd = flaggedAll ts
  | [], [], _ => rfl
  | t :: ts, t' :: ts', h => by
    rw [leakyAll, flaggedAll, Multiset.map_add, h.1.leaky, h.2.leaky]
  | [], _ :: _, h => h.elim
  | _ :: _, [], h => h.elim

end

theorem CopiesAll.append {ts ts' us us' : List (ItemTree D)} (h : CopiesAll ts ts')
    (hu : CopiesAll us us') : CopiesAll (ts ++ us) (ts' ++ us') := by
  induction ts generalizing ts' with
  | nil =>
      cases ts' with
      | nil => exact hu
      | cons t' ts' => exact h.elim
  | cons t ts ih =>
      cases ts' with
      | nil => exact h.elim
      | cons t' ts' => exact ⟨h.1, ih h.2⟩

mutual

theorem Seen.mono {I I' : Multiset (ℕ × CJsonNode D)} {T T' : Multiset (ℕ × List UInt8)}
    (hI : I ⊆ I') (hT : T ⊆ T') : ∀ {t : ItemTree D}, Seen I T t → Seen I' T' t
  | item _ l children, h => by
    obtain ⟨⟨n, hn, hinfo, hchild⟩, ⟨hvalue, hname⟩, hchildren⟩ := h
    refine ⟨⟨n, hI hn, hinfo, hchild⟩, ⟨fun x hx ↦ hT (hvalue x hx), ?_⟩, hchildren.mono hI hT⟩
    cases hl : l.name with
    | none isConst => trivial
    | block isConst a s =>
        rw [hl] at hname
        exact hT hname
    | caller s => trivial
  | reference _ _ _, h => h.elim

theorem SeenAll.mono {I I' : Multiset (ℕ × CJsonNode D)} {T T' : Multiset (ℕ × List UInt8)}
    (hI : I ⊆ I') (hT : T ⊆ T') : ∀ {ts : List (ItemTree D)}, SeenAll I T ts → SeenAll I' T' ts
  | [], _ => trivial
  | t :: ts, h => by
    obtain ⟨ht, ⟨n, hn, hnext⟩, hts⟩ := h
    exact ⟨ht.mono hI hT, ⟨n, hI hn, hnext⟩, hts.mono hI hT⟩

end

/-! ## Depth -/

mutual

/-- The pointers to children and to the next item that are followed one behind the other. -/
def depth : ItemTree D → ℕ
  | item _ _ children => depthAll children + 1
  | reference _ _ _ => 0

def depthAll : List (ItemTree D) → ℕ
  | [] => 1
  | t :: ts => max (depth t) (depthAll ts) + 1

end

mutual

def addrs : ItemTree D → Finset ℕ
  | item a _ children => insert a (addrsAll children)
  | reference a _ _ => {a}

def addrsAll : List (ItemTree D) → Finset ℕ
  | [] => ∅
  | t :: ts => addrs t ∪ addrsAll ts

end

section

variable {h : CJsonHeap D} {I : Multiset (ℕ × CJsonNode D)} {T : Multiset (ℕ × List UInt8)}

mutual

/-- What is seen from an address has one size. -/
theorem Seen.size_eq (hh : h.Holds I T) : ∀ {t u : ItemTree D}, Seen I T t → Seen I T u →
    t.addr = u.addr → t.size = u.size
  | item a _ _, item _ _ _, ht, hu, haddr => by
    obtain rfl : a = _ := haddr
    obtain ⟨⟨n, hn, -, hchild⟩, -, hts⟩ := ht
    obtain ⟨⟨n', hn', -, hchild'⟩, -, hus⟩ := hu
    obtain rfl : n = n' :=
      Option.some.inj ((hh.items.get_of_mem hn).symm.trans (hh.items.get_of_mem hn'))
    rw [size, size, hts.size_eq hh hus (hchild.symm.trans hchild')]
  | item _ _ _, reference _ _ _, _, hu, _ => hu.elim
  | reference _ _ _, _, ht, _, _ => ht.elim

theorem SeenAll.size_eq (hh : h.Holds I T) : ∀ {ts us : List (ItemTree D)}, SeenAll I T ts →
    SeenAll I T us → firstOf ts = firstOf us → sizeAll ts = sizeAll us
  | [], [], _, _, _ => rfl
  | t :: ts, u :: us, hts, hus, hfirst => by
    have haddr : t.addr = u.addr := Option.some.inj hfirst
    obtain ⟨ht, ⟨n, hn, hnext⟩, hts⟩ := hts
    obtain ⟨hu, ⟨n', hn', hnext'⟩, hus⟩ := hus
    rw [← haddr] at hn'
    obtain rfl : n = n' :=
      Option.some.inj ((hh.items.get_of_mem hn).symm.trans (hh.items.get_of_mem hn'))
    rw [sizeAll, sizeAll, ht.size_eq hh hu haddr,
      hts.size_eq hh hus (hnext.symm.trans hnext')]
  | [], _ :: _, _, _, hfirst => by cases hfirst
  | _ :: _, [], _, _, hfirst => by cases hfirst

end

mutual

/-- An address below an item is the head of a chain that is smaller than the item. -/
theorem Seen.chain_at : ∀ {t : ItemTree D}, Seen I T t → ∀ b ∈ t.addrs, b = t.addr ∨
    ∃ u us, SeenAll I T (u :: us) ∧ u.addr = b ∧ sizeAll (u :: us) < t.size
  | item a _ children, ht, b, hb => by
    rcases Finset.mem_insert.mp hb with rfl | hb
    · exact .inl rfl
    · obtain ⟨u, us, hseen, haddr, hle⟩ := ht.2.2.chain_at b hb
      exact .inr ⟨u, us, hseen, haddr, Nat.lt_succ_of_le hle⟩
  | reference _ _ _, ht, _, _ => ht.elim

theorem SeenAll.chain_at : ∀ {ts : List (ItemTree D)}, SeenAll I T ts → ∀ b ∈ addrsAll ts,
    ∃ u us, SeenAll I T (u :: us) ∧ u.addr = b ∧ sizeAll (u :: us) ≤ sizeAll ts
  | [], _, _, hb => absurd hb (Finset.notMem_empty _)
  | t :: ts, hseen, b, hb => by
    rcases Finset.mem_union.mp hb with hb | hb
    · rcases hseen.1.chain_at b hb with rfl | ⟨u, us, hus, haddr, hlt⟩
      · exact ⟨t, ts, hseen, rfl, le_rfl⟩
      · exact ⟨u, us, hus, haddr, hlt.le.trans (Nat.le_add_right _ _)⟩
    · obtain ⟨u, us, hus, haddr, hle⟩ := hseen.2.2.chain_at b hb
      exact ⟨u, us, hus, haddr, hle.trans (Nat.le_add_left _ _)⟩

end

/-- An item is not seen below itself. -/
theorem Seen.notMem_addrsAll (hh : h.Holds I T) {a : ℕ} {l : ItemLabel D}
    {children : List (ItemTree D)} (ht : Seen I T (item a l children)) :
    a ∉ addrsAll children := by
  intro ha
  obtain ⟨u, us, hus, haddr, hle⟩ := ht.2.2.chain_at a ha
  have hsize := hus.1.size_eq hh ht haddr
  rw [sizeAll, hsize, size] at hle
  omega

/-- An item is not seen behind itself. -/
theorem SeenAll.notMem_addrsAll (hh : h.Holds I T) {t : ItemTree D} {ts : List (ItemTree D)}
    (hts : SeenAll I T (t :: ts)) : t.addr ∉ addrsAll ts := by
  intro ha
  obtain ⟨u, us, hus, haddr, hle⟩ := hts.2.2.chain_at t.addr ha
  have hsize := hus.size_eq hh hts (congrArg some haddr)
  have hpos := t.size_pos
  rw [hsize, sizeAll] at hle
  omega

theorem addr_mem_addrs (t : ItemTree D) : t.addr ∈ t.addrs := by
  cases t with
  | item a l children => exact Finset.mem_insert_self _ _
  | reference a l child => exact Finset.mem_singleton_self _

mutual

theorem Seen.depth_le_card (hh : h.Holds I T) : ∀ {t : ItemTree D}, Seen I T t →
    t.depth ≤ 2 * t.addrs.card
  | item a _ children, ht => by
    have hchildren := ht.2.2.depth_le_card hh
    rw [depth, addrs, Finset.card_insert_of_notMem (ht.notMem_addrsAll hh)]
    omega
  | reference _ _ _, ht => ht.elim

theorem SeenAll.depth_le_card (hh : h.Holds I T) : ∀ {ts : List (ItemTree D)}, SeenAll I T ts →
    depthAll ts ≤ 2 * (addrsAll ts).card + 1
  | [], _ => le_rfl
  | t :: ts, hts => by
    have ht := hts.1.depth_le_card hh
    have hrest := hts.2.2.depth_le_card hh
    have hle : t.addrs.card ≤ (addrsAll (t :: ts)).card :=
      Finset.card_le_card Finset.subset_union_left
    -- the head is not among the rest
    have hlt : (addrsAll ts).card + 1 ≤ (addrsAll (t :: ts)).card := by
      rw [← Finset.card_insert_of_notMem (hts.notMem_addrsAll hh)]
      refine Finset.card_le_card (Finset.insert_subset ?_ Finset.subset_union_right)
      exact Finset.mem_union_left _ (addr_mem_addrs t)
    rw [depthAll]
    omega

end

mutual

theorem Seen.addrs_lt (hh : h.Holds I T) : ∀ {t : ItemTree D}, Seen I T t →
    ∀ b ∈ t.addrs, b < h.fresh
  | item _ _ _, ht, b, hb => by
    rcases Finset.mem_insert.mp hb with rfl | hb
    · obtain ⟨⟨n, hn, -⟩, -⟩ := ht
      exact hh.items_lt _ hn
    · exact ht.2.2.addrs_lt hh b hb
  | reference _ _ _, ht, _, _ => ht.elim

theorem SeenAll.addrs_lt (hh : h.Holds I T) : ∀ {ts : List (ItemTree D)}, SeenAll I T ts →
    ∀ b ∈ addrsAll ts, b < h.fresh
  | [], _, _, hb => absurd hb (Finset.notMem_empty _)
  | _ :: _, hts, b, hb =>
    (Finset.mem_union.mp hb).elim (hts.1.addrs_lt hh b) (hts.2.2.addrs_lt hh b)

end

/-- However often an item is seen, no path goes through it twice. -/
theorem Seen.depth_le {t : ItemTree D} (hh : h.Holds I T) (ht : Seen I T t) :
    t.depth ≤ 2 * h.fresh + 2 := by
  have hcard : t.addrs.card ≤ h.fresh := by
    have hsub : t.addrs ⊆ Finset.range h.fresh := fun b hb ↦
      Finset.mem_range.mpr (ht.addrs_lt hh b hb)
    exact (Finset.card_le_card hsub).trans_eq (Finset.card_range _)
  have := ht.depth_le_card hh
  omega

end

end ItemTree

namespace CJsonHeap

open ItemTree

variable {h h' : CJsonHeap D} {I : Multiset (ℕ × CJsonNode D)}
  {T : Multiset (ℕ × List UInt8)} {l l' : ItemLabel D}

/-- All of a copy is there, or nothing but names with the flag. -/
def Duplicated (h : CJsonHeap D) (I : Multiset (ℕ × CJsonNode D))
    (T : Multiset (ℕ × List UInt8)) (flagged : Multiset (List UInt8)) (Q : ItemTree D → Prop)
    (x : Option (Option ℕ × CJsonHeap D)) : Prop :=
  ∃ r h', x = some (r, h') ∧ Grows h h' ∧
    ((r = none ∧ Fails h h' ∧
        ∃ G, h'.Holds I (G + T) ∧ G.map Prod.snd ≤ flagged) ∨
      ∃ t, r = some t.addr ∧ Q t ∧ h'.Holds (blocks none [t] + I) (t.texts + T))

theorem blocks_leaf (b : ℕ) (l : ItemLabel D) :
    blocks none [.item b l []] = {(b, ⟨none, none, l.info, none, false⟩)} := by
  rw [blocks_cons, inner_item]
  rfl

theorem texts_leaf (b : ℕ) (l : ItemLabel D) :
    (ItemTree.item b l []).texts = l.value + l.name.text := by
  rw [ItemTree.texts, textsAll, add_zero]

theorem Holds.chars_name (hh : h.Holds I T) {name : TreeName} (hread : name.Readable T)
    {p : CharPtr} (hp : name.ptr = some p) : h.chars p = name.chars := by
  cases name with
  | none isConst => cases hp
  | block isConst a s =>
      cases hp
      exact hh.texts.get_of_mem hread
  | caller s =>
      cases hp
      rfl

/-- A string is copied into an item without children; if there is no memory for it, the item is
deleted. -/
theorem copyString_holds {b : ℕ} (str : Option CharPtr) {f : ℕ → CJsonData D → CJsonData D}
    (hh : h.Holds (blocks none [.item b l []] + I) ((ItemTree.item b l []).texts + T))
    (hleaky : l.name.leaky = 0) (hstr : ∀ p ∈ str, ∃ s, h.chars p = some s) :
    ∃ ok h', h.copyString b str f = some (ok, h') ∧ Grows h h' ∧
      ((ok = true ∧ str = none ∧ h' = h) ∨
        (ok = false ∧ Fails h h' ∧ h'.Holds I T) ∨
        (ok = true ∧ ∃ p s a, str = some p ∧ h.chars p = some s ∧
          h'.Holds ({(b, ⟨none, none, f a ⟨l.info, none, false⟩⟩)} + I)
            ({(a, s)} + ((ItemTree.item b l []).texts + T)))) := by
  cases str with
  | none => exact ⟨true, h, rfl, .refl h, .inl ⟨rfl, rfl, rfl⟩⟩
  | some p =>
      obtain ⟨s, hs⟩ := hstr p rfl
      cases hm : h.memory h.fresh with
      | false =>
          obtain ⟨h₁, hdup, hh₁, hc₁⟩ := hh.strdup_none hm hs
          obtain ⟨h₂, hdel, hh₂, hk₂⟩ := cJsonDelete_holds hh₁
          have hnone : (ItemTree.item b l []).leaky = 0 := by
            rw [ItemTree.leaky, leakyAll, hleaky, add_zero]
          rw [hnone, zero_add] at hh₂
          exact ⟨false, h₂, bind_of_some hdup (bind_of_some hdel rfl),
            hc₁.grows.trans hk₂.grows, .inr (.inl ⟨rfl, (hc₁.fails hm).trans hk₂.grows, hh₂⟩)⟩
      | true =>
          obtain ⟨h₁, hdup, hh₁, hc₁⟩ := hh.strdup_some hm hs
          rw [blocks_leaf] at hh₁
          obtain ⟨h₂, hwrite, hh₂, hk₂⟩ := hh₁.write (f h.fresh)
          exact ⟨true, h₂, bind_of_some hdup (bind_of_some hwrite rfl),
            hc₁.grows.trans hk₂.grows, .inr (.inr ⟨rfl, p, s, h.fresh, rfl, hs, hh₂⟩)⟩

/-- The first string of a copy. -/
theorem copyValue_holds {b : ℕ} (hh : h.Holds (blocks none [.item b l' []] + I)
    ((ItemTree.item b l' []).texts + T)) (hvalue : l'.valuestring = none)
    (hleaky : l'.name.leaky = 0) (hl : l.Readable T) :
    ∃ ok h', h.copyString b ((l.valuestring.map Prod.fst).map .block)
        (fun a d ↦ { d with valuestring := some a }) = some (ok, h') ∧ Grows h h' ∧
      ((ok = false ∧ Fails h h' ∧ h'.Holds I T) ∨
        (ok = true ∧ ∃ v, v.map Prod.snd = l.valuestring.map Prod.snd ∧
          h'.Holds (blocks none [.item b { l' with valuestring := v } []] + I)
            ((ItemTree.item b { l' with valuestring := v } []).texts + T))) := by
  cases hv : l.valuestring with
  | none => exact ⟨true, h, rfl, .refl h, .inr ⟨rfl, l'.valuestring, by rw [hvalue], hh⟩⟩
  | some x =>
      have hx : h.chars (.block x.1) = some x.2 :=
        hh.texts.get_of_mem (Multiset.mem_add.mpr (.inr (hl.value x hv)))
      obtain ⟨ok, h₁, hcopy, hg, hcases⟩ := copyString_holds (some (.block x.1))
        (f := fun a d ↦ { d with valuestring := some a }) hh hleaky
        fun p hp ↦ ⟨x.2, by cases hp; exact hx⟩
      refine ⟨ok, h₁, hcopy, hg, ?_⟩
      rcases hcases with ⟨-, hstr, -⟩ | ⟨hok, hfail, hh₁⟩ | ⟨hok, p, s, a, hp, hs, hh₁⟩
      · cases hstr
      · exact .inl ⟨hok, hfail, hh₁⟩
      · cases hp
        obtain rfl : x.2 = s := Option.some.inj (hx.symm.trans hs)
        refine .inr ⟨hok, some (a, x.2), rfl, hh₁.congr ?_ ?_⟩
        · rw [blocks_leaf]
          rfl
        · rw [texts_leaf, texts_leaf, ItemLabel.value_none hvalue, ItemLabel.value_some rfl,
            zero_add]
          abel

/-- The second string of a copy. -/
theorem copyName_holds {b : ℕ} (hh : h.Holds (blocks none [.item b l' []] + I)
    ((ItemTree.item b l' []).texts + T)) (hname : l'.name = .none l.name.isConst)
    (hl : l.Readable T) :
    ∃ ok h', h.copyString b l.name.ptr (fun a d ↦ { d with string := some (.block a) }) =
        some (ok, h') ∧ Grows h h' ∧
      ((ok = false ∧ Fails h h' ∧ h'.Holds I T) ∨
        (ok = true ∧ ∃ name : TreeName, name.isConst = l.name.isConst ∧
          name.chars = l.name.chars ∧ (∀ s, name ≠ .caller s) ∧
          h'.Holds (blocks none [.item b { l' with name } []] + I)
            ((ItemTree.item b { l' with name } []).texts + T))) := by
  have hleaky : l'.name.leaky = 0 := by rw [hname]; rfl
  have hchars : ∀ p ∈ l.name.ptr, h.chars p = l.name.chars := fun p hp ↦
    hh.chars_name (hl.name.mono (Multiset.subset_of_le (Multiset.le_add_left _ _))) hp
  obtain ⟨ok, h₁, hcopy, hg, hcases⟩ := copyString_holds l.name.ptr
    (f := fun a d ↦ { d with string := some (.block a) }) hh hleaky fun p hp ↦ by
      rw [hchars p hp]
      exact TreeName.exists_chars hp
  refine ⟨ok, h₁, hcopy, hg, ?_⟩
  rcases hcases with ⟨hok, hstr, rfl⟩ | ⟨hok, hfail, hh₁⟩ | ⟨hok, p, s, a, hp, hs, hh₁⟩
  · refine .inr ⟨hok, l'.name, by rw [hname, TreeName.isConst], ?_, fun s heq ↦ ?_, hh⟩
    · rw [hname, TreeName.chars_of_null hstr, TreeName.chars]
    · rw [hname] at heq
      cases heq
  · exact .inl ⟨hok, hfail, hh₁⟩
  · refine .inr ⟨hok, .block l.name.isConst a s, rfl, ?_, fun s h ↦ (by cases h), hh₁.congr ?_ ?_⟩
    · rw [← hchars p hp, hs]
      rfl
    · rw [blocks_leaf, ItemLabel.info, ItemLabel.info, hname]
      rfl
    · rw [texts_leaf, texts_leaf, hname, ItemLabel.value, ItemLabel.value]
      dsimp only [TreeName.text]
      abel

/-- A copy of an item without its children. -/
theorem duplicateItem_holds {item : ℕ} {n : CJsonNode D} (hh : h.Holds I T) (hn : (item, n) ∈ I)
    (hinfo : n.data.toCJsonInfo = l.info) (hl : l.Readable T) :
    ∃ r h', h.duplicateItem item = some (r, h') ∧ Grows h h' ∧
      ((r = none ∧ Fails h h' ∧ h'.Holds I T) ∨
        ∃ b l', r = some b ∧ l.Copies l' ∧
          h'.Holds (blocks none [.item b l' []] + I) ((ItemTree.item b l' []).texts + T)) := by
  have hdata : h.data item = some n.data := by
    rw [CJsonHeap.data, hh.items.get_of_mem hn, Option.map_some]
  generalize n.data = d at hdata hinfo
  obtain ⟨info, child, isReference⟩ := d
  obtain rfl : info = l.info := hinfo
  let l₀ : ItemLabel D := ⟨l.type, none, l.valueint, l.valuedouble, .none l.name.isConst⟩
  cases hm : h.memory h.fresh with
  | false =>
      obtain ⟨h₁, hnew, hh₁, hc₁⟩ := hh.newItem_none hm ⟨l₀.info, none, false⟩
      exact ⟨none, h₁, bind_of_some hdata (congrArg (orNull · _) hnew), hc₁.grows,
        .inl ⟨rfl, hc₁.fails hm, hh₁⟩⟩
  | true =>
      obtain ⟨h₁, hnew, hh₁, hc₁⟩ := hh.newItem_some hm ⟨l₀.info, none, false⟩
      have hh₁ : h₁.Holds (blocks none [.item h.fresh l₀ []] + I)
          ((ItemTree.item h.fresh l₀ []).texts + T) := by
        refine hh₁.congr (by rw [blocks_leaf]) ?_
        rw [texts_leaf, ItemLabel.value_none rfl, zero_add]
        exact (zero_add T).symm
      obtain ⟨ok, h₂, hvalue, hvalues, hcases₂⟩ := copyValue_holds hh₁ rfl rfl hl
      have hg₂ := hc₁.grows.trans hvalues
      rcases hcases₂ with ⟨rfl, hfail, hh₂⟩ | ⟨rfl, v, hv, hh₂⟩
      · exact ⟨none, h₂, bind_of_some hdata ((congrArg (orNull · _) hnew).trans
          (bind_of_some hvalue rfl)), hg₂, .inl ⟨rfl, hc₁.grows.fails hfail, hh₂⟩⟩
      · obtain ⟨ok, h₃, hname, hnames, hcases₃⟩ := copyName_holds hh₂ rfl hl
        rcases hcases₃ with ⟨rfl, hfail, hh₃⟩ | ⟨rfl, name, hconst, hchars, hown, hh₃⟩
        · exact ⟨none, h₃, bind_of_some hdata ((congrArg (orNull · _) hnew).trans
            (bind_of_some hvalue (bind_of_some hname rfl))), hg₂.trans hnames,
            .inl ⟨rfl, hg₂.fails hfail, hh₃⟩⟩
        · exact ⟨some h.fresh, h₃, bind_of_some hdata ((congrArg (orNull · _) hnew).trans
            (bind_of_some hvalue (bind_of_some hname rfl))), hg₂.trans hnames,
            .inr ⟨h.fresh, { l₀ with valuestring := v, name }, rfl,
              ⟨rfl, hv, rfl, rfl, hconst, hchars, hown⟩, hh₃⟩⟩

/-- A tree is hung behind the others below `b`. -/
theorem hang_holds {b : ℕ} {p q : Option ℕ} {done : List (ItemTree D)} {t : ItemTree D}
    (hh : h.Holds (treeBlocks none none t + (treeBlocks p q (.item b l done) + I)) T) :
    ∃ h', (if (last none (done.map top)).isSome then
        h.suffixObject (last none (done.map top)) (some t.addr)
      else h.write b fun d ↦ { d with child := some t.addr }) = some h' ∧
      h'.Holds (treeBlocks p q (.item b l (done ++ [t])) + I) T ∧ Keeps h h' := by
  rw [treeBlocks_item, treeBlocks] at hh
  rw [treeBlocks_item, List.map_append, innerAll_append]
  have hinner : innerAll [t] = t.inner := by rw [innerAll, innerAll, add_zero]
  rcases List.eq_nil_or_concat done with rfl | ⟨done, u, rfl⟩
  · rw [family, List.map_nil, chain_nil, first_nil, innerAll] at hh
    have hh : h.Holds ({(b, withChild ⟨q, p, l.info, none, false⟩ none)} +
        ({(t.addr, ⟨none, none, t.data⟩)} + (t.inner + I))) T := hh.congr (by abel) rfl
    obtain ⟨h', hwrite, hh', hk⟩ := hh.write fun d ↦ { d with child := some t.addr }
    refine ⟨h', hwrite, hh'.congr ?_ rfl, hk⟩
    have hfamily : family b ⟨q, p, l.info, none, false⟩ (List.map top [] ++ [top t]) =
        {(b, withChild ⟨q, p, l.info, none, false⟩ (some t.addr))} +
          {(t.addr, ⟨none, none, t.data⟩)} := rfl
    rw [List.map_singleton, hfamily, hinner, innerAll]
    rw [zero_add, add_assoc, add_assoc]
    rfl
  · have hfirst : first ((done ++ [u]).map top) none =
        first ((done ++ [u]).map top ++ [top t]) none := by
      rw [List.map_append, List.append_assoc, first_append, first_append]
      rfl
    rw [List.concat_eq_append] at hh ⊢
    rw [family] at hh
    have hh : h.Holds (chain none ((done ++ [u]).map top) none +
        ({(t.addr, ⟨none, none, t.data⟩)} +
          ({(b, withChild ⟨q, p, l.info, none, false⟩ (first ((done ++ [u]).map top) none))} +
            (innerAll (done ++ [u]) + (t.inner + I))))) T :=
      hh.congr (by abel) rfl
    obtain ⟨h', hsuffix, hh', hk⟩ := suffixObject_holds (by simp) hh
    refine ⟨h', ?_, hh'.congr ?_ rfl, hk⟩
    · rw [if_pos]
      · exact hsuffix
      · rw [List.map_append, last_append]
        rfl
    · rw [hinner, List.map_singleton, family, ← hfirst, top]
      abel

/-- What is seen below `t` is copied. -/
def Duplicates (t : ItemTree D) : Prop :=
  ∀ (h : CJsonHeap D) (I : Multiset (ℕ × CJsonNode D)) (T : Multiset (ℕ × List UInt8)) (fuel : ℕ),
    h.Holds I T → Seen I T t → t.depth ≤ fuel →
    Duplicated h I T t.flagged (Copies t) (duplicateLoop fuel h t.addr true)

/-- The copies of a chain are hung behind those that are `done`. -/
def DuplicatesAll (ts : List (ItemTree D)) : Prop :=
  ∀ (h : CJsonHeap D) (I : Multiset (ℕ × CJsonNode D)) (T : Multiset (ℕ × List UInt8)) (b : ℕ)
    (l : ItemLabel D) (done : List (ItemTree D)) (fuel : ℕ),
    h.Holds (blocks none [.item b l done] + I) ((ItemTree.item b l done).texts + T) →
    SeenAll I T ts → depthAll ts ≤ fuel →
    Duplicated h I T ((ItemTree.item b l done).leaky.map Prod.snd + flaggedAll ts)
      (fun t ↦ ∃ copies, t = .item b l (done ++ copies) ∧ CopiesAll ts copies)
      (duplicateChildren fuel h b (last none (done.map top)) (firstOf ts))

theorem duplicatesAll_nil : DuplicatesAll ([] : List (ItemTree D)) := by
  intro h I T b l done fuel hh _ hfuel
  rw [depthAll] at hfuel
  obtain ⟨fuel, rfl⟩ : ∃ k, fuel = k + 1 := ⟨fuel - 1, by omega⟩
  exact ⟨some b, h, rfl, .refl h,
    .inr ⟨.item b l done, rfl, ⟨[], by rw [List.append_nil], trivial⟩, hh⟩⟩

theorem duplicatesAll_cons {t : ItemTree D} {ts : List (ItemTree D)} (ht : Duplicates t)
    (hts : DuplicatesAll ts) : DuplicatesAll (t :: ts) := by
  intro h I T b l done fuel hh hseen hfuel
  rw [depthAll] at hfuel
  obtain ⟨fuel, rfl⟩ : ∃ k, fuel = k + 1 := ⟨fuel - 1, by omega⟩
  obtain ⟨hseen, ⟨n, hn, hnext⟩, hseens⟩ := hseen
  have hseen : Seen (blocks none [.item b l done] + I) ((ItemTree.item b l done).texts + T) t :=
    hseen.mono (fun _ hx ↦ Multiset.mem_add.mpr (.inr hx))
      fun _ hx ↦ Multiset.mem_add.mpr (.inr hx)
  obtain ⟨r, h₁, hloop, hg₁, hcases⟩ := ht h _ _ fuel hh hseen (by omega)
  rcases hcases with ⟨rfl, hfail, G, hh₁, hG⟩ | ⟨t', rfl, hcopy, hh₁⟩
  · obtain ⟨h₂, hdel, hh₂, hk₂⟩ := cJsonDelete_holds (hh₁.congr rfl (add_left_comm _ _ _))
    refine ⟨none, h₂, bind_of_some hloop (bind_of_some hdel rfl), hg₁.trans hk₂.grows,
      .inl ⟨rfl, hfail.trans hk₂.grows, (ItemTree.item b l done).leaky + G,
        hh₂.congr rfl (add_assoc _ _ _).symm, ?_⟩⟩
    rw [Multiset.map_add, flaggedAll, ← add_assoc]
    exact le_trans (add_le_add_right hG _) (Multiset.le_add_right _ _)
  · rw [blocks_singleton, blocks_singleton] at hh₁
    obtain ⟨h₂, happend, hh₂, hk₂⟩ := hang_holds hh₁
    rw [← blocks_singleton] at hh₂
    have hget : h₂.items t.addr = some n :=
      hh₂.items.get_of_mem (Multiset.mem_add.mpr (.inr hn))
    have htexts : (ItemTree.item b l (done ++ [t'])).texts =
        t'.texts + (ItemTree.item b l done).texts := by
      rw [ItemTree.texts, ItemTree.texts, textsAll_append, textsAll, textsAll, add_zero]
      abel
    have hleaky : (ItemTree.item b l (done ++ [t'])).leaky.map Prod.snd =
        (ItemTree.item b l done).leaky.map Prod.snd + t.flagged := by
      rw [ItemTree.leaky, ItemTree.leaky, leakyAll_append, leakyAll, leakyAll, add_zero,
        ← add_assoc, Multiset.map_add, hcopy.leaky]
    have hlast : last none ((done ++ [t']).map top) = some t'.addr := by
      rw [List.map_append, last_append]
      rfl
    obtain ⟨r, h₃, hrest, hg₃, hcases⟩ := hts h₂ I T b l (done ++ [t']) fuel
      (hh₂.congr rfl (by rw [htexts, add_assoc])) hseens (by omega)
    have hg₂ := hg₁.trans hk₂.grows
    rw [hlast] at hrest
    refine ⟨r, h₃, bind_of_some hloop (bind_of_some happend (bind_of_some hget ?_)),
      hg₂.trans hg₃, ?_⟩
    · rw [hnext]
      exact hrest
    · rcases hcases with ⟨hr, hfail, G, hh₃, hG⟩ | ⟨u, hr, ⟨copies, rfl, hcopies⟩, hh₃⟩
      · refine .inl ⟨hr, hg₂.fails hfail, G, hh₃, hG.trans_eq ?_⟩
        rw [hleaky, flaggedAll, add_assoc]
      · refine .inr ⟨_, hr, ⟨t' :: copies, ?_, hcopy, hcopies⟩, hh₃⟩
        rw [List.append_assoc]
        rfl

theorem duplicates_item {a : ℕ} {l : ItemLabel D} {children : List (ItemTree D)}
    (hchildren : DuplicatesAll children) : Duplicates (.item a l children) := by
  intro h I T fuel hh hseen hfuel
  rw [depth] at hfuel
  obtain ⟨fuel, rfl⟩ : ∃ k, fuel = k + 1 := ⟨fuel - 1, by omega⟩
  obtain ⟨⟨n, hn, hinfo, hchild⟩, hl, hseens⟩ := hseen
  obtain ⟨r, h₁, hitem, hg₁, hcases⟩ := duplicateItem_holds hh hn hinfo hl
  rcases hcases with ⟨rfl, hfail, hh₁⟩ | ⟨b, l', rfl, hcopy, hh₁⟩
  · exact ⟨none, h₁, bind_of_some hitem rfl, hg₁,
      .inl ⟨rfl, hfail, 0, hh₁.congr rfl (zero_add T).symm, Multiset.zero_le _⟩⟩
  · have hdata : h₁.data a = some n.data := by
      rw [CJsonHeap.data, hh₁.items.get_of_mem (Multiset.mem_add.mpr (.inr hn)), Option.map_some]
    have hleaky : (ItemTree.item b l' []).leaky.map Prod.snd = l.name.flagged := by
      rw [ItemTree.leaky, leakyAll, add_zero, leaky_copy hcopy]
    obtain ⟨r, h₂, hrest, hg₂, hcases⟩ := hchildren h₁ I T b l' [] fuel hh₁ hseens (by omega)
    refine ⟨r, h₂, bind_of_some hitem (bind_of_some hdata ?_), hg₁.trans hg₂, ?_⟩
    · rw [hchild]
      exact hrest
    · rw [hleaky] at hcases
      rcases hcases with ⟨hr, hfail, G, hh₂, hG⟩ | ⟨u, hr, ⟨copies, rfl, hcopies⟩, hh₂⟩
      · exact .inl ⟨hr, hg₁.fails hfail, G, hh₂, hG⟩
      · exact .inr ⟨_, hr, ⟨hcopy, hcopies⟩, hh₂⟩

mutual

theorem duplicates : ∀ t : ItemTree D, Duplicates t
  | .item _ _ children => duplicates_item (duplicatesAll children)
  | .reference _ _ _ => fun _ _ _ _ _ hseen _ ↦ hseen.elim

theorem duplicatesAll : ∀ ts : List (ItemTree D), DuplicatesAll ts
  | [] => duplicatesAll_nil
  | t :: ts => duplicatesAll_cons (duplicates t) (duplicatesAll ts)

end

end CJsonHeap

end OsaBase
