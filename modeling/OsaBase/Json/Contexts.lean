import Mathlib.Data.Multiset.Bind
import OsaBase.Json.Lookup

/-!
# Items inside trees

A context is a tree with a hole. The blocks around the hole do not depend on what is put into it, as
long as its address stays. The heap stands for the trees that the caller holds, and for the strings
that nobody will free.
-/

open Blocks Json Links

namespace OsaBase

variable {D : Type}

inductive Ctx (D : Type)
  | hole
  | item (a : ℕ) (l : ItemLabel D) (before : List (ItemTree D)) (c : Ctx D)
    (after : List (ItemTree D))

namespace Ctx

def plug : Ctx D → ItemTree D → ItemTree D
  | hole, t => t
  | item a l before c after, t => .item a l (before ++ c.plug t :: after)

/-- The address of the tree, with `a` in the hole. -/
def addr : Ctx D → ℕ → ℕ
  | hole, a => a
  | item a _ _ _ _, _ => a

def texts : Ctx D → Multiset (ℕ × List UInt8)
  | hole => 0
  | item _ l before c after =>
    l.value + l.name.text + (ItemTree.textsAll before + (c.texts + ItemTree.textsAll after))

theorem addr_plug (C : Ctx D) (t : ItemTree D) : (C.plug t).addr = C.addr t.addr := by
  cases C <;> rfl

theorem texts_plug (C : Ctx D) (t : ItemTree D) : (C.plug t).texts = t.texts + C.texts := by
  induction C with
  | hole => exact (add_zero _).symm
  | item a l before c after ih =>
      rw [plug, ItemTree.texts, ItemTree.textsAll_append, ItemTree.textsAll, ih, texts]
      abel

end Ctx

namespace ItemTree

/-- The blocks of trees in a chain, with the one at `t` set apart. -/
theorem blocks_mid (ts us : List (ItemTree D)) (t : ItemTree D) :
    blocks none (ts ++ t :: us) =
      treeBlocks (last none (ts.map top)) (firstOf us) t +
        (chain none (ts.map top) (some t.addr) + innerAll ts + blocks (some t.addr) us) := by
  rw [blocks, List.map_append, List.map_cons, chain_append, top, chain_cons, first_cons,
    first_top, innerAll_append, innerAll, treeBlocks, blocks]
  abel

theorem firstOf_mid (ts us : List (ItemTree D)) (t : ItemTree D) :
    firstOf (ts ++ t :: us) = some ((ts.map addr).headD t.addr) := by
  cases ts <;> rfl

end ItemTree

open ItemTree

/-- The blocks around the hole, and the neighbours of the hole. -/
theorem Ctx.treeBlocks_plug (C : Ctx D) (a : ℕ) (p q : Option ℕ) :
    ∃ p' q' J, ∀ t : ItemTree D, t.addr = a →
      treeBlocks p q (C.plug t) = treeBlocks p' q' t + J := by
  induction C generalizing p q with
  | hole => exact ⟨p, q, 0, fun t _ ↦ (add_zero _).symm⟩
  | item b l before c after ih =>
      obtain ⟨p', q', J, hJ⟩ := ih (last none (before.map top)) (firstOf after)
      refine ⟨p', q', J + ({(b, ⟨q, p, l.info, some ((before.map ItemTree.addr).headD (c.addr a)),
        false⟩)} + (chain none (before.map top) (some (c.addr a)) + innerAll before +
          blocks (some (c.addr a)) after)), fun t ht ↦ ?_⟩
      have haddr : (c.plug t).addr = c.addr a := by rw [addr_plug, ht]
      rw [plug, treeBlocks, inner_item, blocks_mid, hJ t ht, haddr, ItemTree.data, firstOf_mid,
        haddr, ItemTree.addr]
      abel

/-! ## The heap of a forest -/

/-- The trees that the caller holds, and the strings that are never freed. -/
structure Forest (D : Type) where
  trees : Multiset (ItemTree D)
  lost : Multiset (ℕ × List UInt8)
  fresh : ℕ
  memory : ℕ → Bool

def forestBlocks (F : Multiset (ItemTree D)) : Multiset (ℕ × CJsonNode D) :=
  F.bind (treeBlocks none none)

def forestTexts (F : Multiset (ItemTree D)) : Multiset (ℕ × List UInt8) :=
  F.bind ItemTree.texts

@[simp] theorem forestBlocks_add (t : ItemTree D) (F : Multiset (ItemTree D)) :
    forestBlocks ({t} + F) = treeBlocks none none t + forestBlocks F := by
  rw [forestBlocks, Multiset.add_bind, Multiset.singleton_bind, forestBlocks]

@[simp] theorem forestTexts_add (t : ItemTree D) (F : Multiset (ItemTree D)) :
    forestTexts ({t} + F) = t.texts + forestTexts F := by
  rw [forestTexts, Multiset.add_bind, Multiset.singleton_bind, forestTexts]

/-- An item in a forest: its children, and everything else. -/
theorem Ctx.focus (C : Ctx D) (a : ℕ) (l : ItemLabel D) :
    ∃ N K S, ∀ children F,
      forestBlocks ({C.plug (.item a l children)} + F) =
          CJsonHeap.family a N (children.map top) + (innerAll children + (K + forestBlocks F)) ∧
        forestTexts ({C.plug (.item a l children)} + F) =
          textsAll children + (S + forestTexts F) := by
  obtain ⟨p, q, J, hJ⟩ := C.treeBlocks_plug a none none
  refine ⟨⟨q, p, l.info, none, false⟩, J, l.value + l.name.text + C.texts,
    fun children F ↦ ⟨?_, ?_⟩⟩
  · rw [forestBlocks_add, hJ _ rfl, CJsonHeap.treeBlocks_item]
    abel
  · rw [forestTexts_add, texts_plug, ItemTree.texts]
    abel

/-- The heap has the blocks of the forest, and no others. -/
structure Stands (h : CJsonHeap D) (s : Forest D) : Prop where
  holds : h.Holds (forestBlocks s.trees) (forestTexts s.trees + s.lost)
  fresh : h.fresh = s.fresh
  memory : h.memory = s.memory

theorem stands_iff {h : CJsonHeap D} {F : Multiset (ItemTree D)} {G : Multiset (ℕ × List UInt8)}
    {k : ℕ} {m : ℕ → Bool} : Stands h ⟨F, G, k, m⟩ ↔
      h.Holds (forestBlocks F) (forestTexts F + G) ∧ h.fresh = k ∧ h.memory = m :=
  ⟨fun hs ↦ ⟨hs.holds, hs.fresh, hs.memory⟩, fun ⟨hh, hk, hm⟩ ↦ ⟨hh, hk, hm⟩⟩

theorem stands_empty (m : ℕ → Bool) : Stands (CJsonHeap.empty m : CJsonHeap D) ⟨0, 0, 0, m⟩ where
  holds := CJsonHeap.holds_empty m
  fresh := rfl
  memory := rfl

/-- The children of an item in a forest, and how the heap stands for it when they are others. -/
theorem Stands.family {h : CJsonHeap D} {C : Ctx D} {a : ℕ} {l : ItemLabel D}
    {children : List (ItemTree D)} {F : Multiset (ItemTree D)} {G : Multiset (ℕ × List UInt8)}
    {k : ℕ} {m : ℕ → Bool} (hs : Stands h ⟨{C.plug (.item a l children)} + F, G, k, m⟩) :
    ∃ N I T,
      h.Holds (CJsonHeap.family a N (children.map top) +
        (innerAll children + (I + forestBlocks F)))
        (textsAll children + (T + (forestTexts F + G))) ∧
      ∀ (h' : CJsonHeap D) (children' : List (ItemTree D)) (F' : Multiset (ItemTree D))
        (G' : Multiset (ℕ × List UInt8)),
        h'.Holds (CJsonHeap.family a N (children'.map top) +
          (innerAll children' + (I + forestBlocks F')))
          (textsAll children' + (T + (forestTexts F' + G'))) → h'.memory = m →
        Stands h' ⟨{C.plug (.item a l children')} + F', G', h'.fresh, m⟩ := by
  obtain ⟨N, I, T, hfocus⟩ := C.focus a l
  refine ⟨N, I, T, hs.holds.congr (hfocus _ _).1 ?_, fun h' children' F' G' hh' hm ↦
    ⟨hh'.congr ?_ ?_, rfl, hm⟩⟩
  · rw [(hfocus _ _).2]
    abel
  · rw [(hfocus _ _).1]
  · rw [(hfocus _ _).2]
    abel

/-! ## Names -/

namespace ItemTree

def rename : ItemTree D → TreeName → ItemTree D
  | item a l children, name => item a { l with name } children
  | reference a l child, name => reference a { l with name } child

/-- The strings of the tree but the name of its root. -/
def otherTexts : ItemTree D → Multiset (ℕ × List UInt8)
  | item _ l children => l.value + textsAll children
  | reference _ _ _ => 0

theorem texts_eq (t : ItemTree D) : t.texts = t.label.name.text + t.otherTexts := by
  cases t with
  | item a l children =>
      rw [texts, otherTexts, label]
      abel
  | reference a l child =>
      rw [texts, otherTexts, label]
      exact (add_zero _).symm

theorem texts_rename (t : ItemTree D) (name : TreeName) :
    (t.rename name).texts = name.text + t.otherTexts := by
  cases t <;> exact texts_eq _

theorem addr_rename (t : ItemTree D) (name : TreeName) : (t.rename name).addr = t.addr := by
  cases t <;> rfl

theorem inner_rename (t : ItemTree D) (name : TreeName) : (t.rename name).inner = t.inner := by
  cases t <;> rfl

theorem data_rename (t : ItemTree D) (name : TreeName) :
    (t.rename name).data = { t.data with string := name.ptr, stringIsConst := name.isConst } := by
  cases t <;> rfl

theorem data_stringIsConst (t : ItemTree D) : t.data.stringIsConst = t.label.name.isConst := by
  cases t <;> rfl

end ItemTree

theorem readable_texts (t : ItemTree D) : t.label.name.Readable t.texts := by
  rw [texts_eq]
  cases t.label.name with
  | none isConst => trivial
  | block isConst a s =>
      exact Multiset.mem_add.mpr (.inl (Multiset.mem_singleton_self _))
  | caller s => trivial

theorem readable_textsAll {t : ItemTree D} {ts : List (ItemTree D)} (ht : t ∈ ts) :
    t.label.name.Readable (textsAll ts) := by
  induction ts with
  | nil => cases ht
  | cons u ts ih =>
      rw [textsAll]
      rcases List.mem_cons.mp ht with rfl | ht
      · exact (readable_texts t).mono fun x hx ↦ Multiset.mem_add.mpr (.inl hx)
      · exact (ih ht).mono fun x hx ↦ Multiset.mem_add.mpr (.inr hx)

end OsaBase
