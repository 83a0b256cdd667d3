import OsaBase.Json.Heap

/-!
# The trees that the blocks stand for

A tree of items with their addresses and strings. Its blocks are those of its items, linked as they
stand in the tree, and those of the strings that belong to it; a reference has no items of its own.
-/

open Blocks Json Links

namespace OsaBase

/-- The name of an item. One that is a block although the flag `cJSON_StringIsConst` is set is not
freed with the item. -/
inductive TreeName
  | none (isConst : Bool)
  | block (isConst : Bool) (a : ℕ) (s : List UInt8)
  | caller (s : List UInt8)

structure ItemLabel (D : Type) where
  type : CJsonType
  valuestring : Option (ℕ × List UInt8)
  valueint : Int32
  valuedouble : D
  name : TreeName

/-- A reference has the child pointer of the item that it refers to. -/
inductive ItemTree (D : Type)
  | item (a : ℕ) (l : ItemLabel D) (children : List (ItemTree D))
  | reference (a : ℕ) (l : ItemLabel D) (child : Option ℕ)

variable {D : Type}

namespace TreeName

def isConst : TreeName → Bool
  | .none isConst => isConst
  | .block isConst _ _ => isConst
  | .caller _ => true

def ptr : TreeName → Option CharPtr
  | .none _ => Option.none
  | .block _ a _ => some (.block a)
  | .caller s => some (.caller s)

def chars : TreeName → Option (List UInt8)
  | .none _ => Option.none
  | .block _ _ s => some s
  | .caller s => some s

/-- The block of the name, if it is one. -/
def text : TreeName → Multiset (ℕ × List UInt8)
  | .none _ => 0
  | .block _ a s => {(a, s)}
  | .caller _ => 0

/-- The block that is not freed with the item. -/
def leaky : TreeName → Multiset (ℕ × List UInt8)
  | .block true a s => {(a, s)}
  | _ => 0

theorem leaky_eq_zero {name : TreeName} (h : name.isConst = false) : name.leaky = 0 := by
  cases name with
  | none isConst => rfl
  | block isConst a s =>
      rw [TreeName.isConst] at h
      rw [h, TreeName.leaky]
      rintro _ _ ⟨⟩
  | caller s => rfl

theorem chars_of_null {name : TreeName} (h : name.ptr = Option.none) :
    name.chars = Option.none := by
  cases name with
  | none isConst => rfl
  | block isConst a s => cases h
  | caller s => cases h

theorem exists_chars {name : TreeName} {p : CharPtr} (h : name.ptr = some p) :
    ∃ s, name.chars = some s := by
  cases name with
  | none isConst => cases h
  | block isConst a s => exact ⟨s, rfl⟩
  | caller s => exact ⟨s, rfl⟩

end TreeName

namespace ItemLabel

def info (l : ItemLabel D) : CJsonInfo D where
  type := l.type
  stringIsConst := l.name.isConst
  valuestring := l.valuestring.map Prod.fst
  valueint := l.valueint
  valuedouble := l.valuedouble
  string := l.name.ptr

/-- The block of `valuestring`, if there is one. -/
def value (l : ItemLabel D) : Multiset (ℕ × List UInt8) :=
  match l.valuestring with
  | none => 0
  | some x => {x}

theorem value_none {l : ItemLabel D} (h : l.valuestring = none) : l.value = 0 := by
  rw [value, h]

theorem value_some {l : ItemLabel D} {x : ℕ × List UInt8} (h : l.valuestring = some x) :
    l.value = {x} := by
  rw [value, h]

end ItemLabel

namespace ItemTree

def addr : ItemTree D → ℕ
  | item a _ _ => a
  | reference a _ _ => a

def label : ItemTree D → ItemLabel D
  | item _ l _ => l
  | reference _ l _ => l

/-- The pointer to the first of the trees. -/
def firstOf : List (ItemTree D) → Option ℕ
  | [] => none
  | t :: _ => some t.addr

def data : ItemTree D → CJsonData D
  | item _ l children => ⟨l.info, firstOf children, false⟩
  | reference _ l child => ⟨l.info, child, true⟩

/-- The cell of the tree in the chain that it stands in. -/
def top (t : ItemTree D) : ℕ × CJsonData D := (t.addr, t.data)

mutual

/-- The blocks of the items below the root. -/
def inner : ItemTree D → Multiset (ℕ × CJsonNode D)
  | item _ _ children => chain none (children.map top) none + innerAll children
  | reference _ _ _ => 0

def innerAll : List (ItemTree D) → Multiset (ℕ × CJsonNode D)
  | [] => 0
  | t :: ts => inner t + innerAll ts

end

mutual

/-- The blocks of the strings. -/
def texts : ItemTree D → Multiset (ℕ × List UInt8)
  | item _ l children => l.value + l.name.text + textsAll children
  | reference _ l _ => l.name.text

def textsAll : List (ItemTree D) → Multiset (ℕ × List UInt8)
  | [] => 0
  | t :: ts => texts t + textsAll ts

end

mutual

/-- The blocks of the strings that are not freed with the tree. -/
def leaky : ItemTree D → Multiset (ℕ × List UInt8)
  | item _ l children => l.name.leaky + leakyAll children
  | reference _ l _ => l.name.leaky

def leakyAll : List (ItemTree D) → Multiset (ℕ × List UInt8)
  | [] => 0
  | t :: ts => leaky t + leakyAll ts

end

mutual

/-- The number of items. -/
def size : ItemTree D → ℕ
  | item _ _ children => sizeAll children + 1
  | reference _ _ _ => 1

def sizeAll : List (ItemTree D) → ℕ
  | [] => 0
  | t :: ts => size t + sizeAll ts

end

mutual

/-- The item as the printer sees it; of a reference, without what it refers to. -/
def toItem : ItemTree D → CJson D
  | item _ l children =>
    ⟨l.type, l.valuestring.map Prod.snd, l.valueint, l.valuedouble, l.name.chars,
      toItems children⟩
  | reference _ l _ => ⟨l.type, none, l.valueint, l.valuedouble, l.name.chars, []⟩

def toItems : List (ItemTree D) → List (CJson D)
  | [] => []
  | t :: ts => toItem t :: toItems ts

end

theorem size_pos (t : ItemTree D) : 0 < t.size := by
  cases t <;>
    rw [size] <;>
    exact Nat.succ_pos _

/-- The blocks of trees in a chain behind `p`, with nothing behind them. -/
def blocks (p : Option ℕ) (ts : List (ItemTree D)) : Multiset (ℕ × CJsonNode D) :=
  chain p (ts.map top) none + innerAll ts

theorem first_top (ts : List (ItemTree D)) : first (ts.map top) none = firstOf ts := by
  cases ts <;> rfl

theorem blocks_cons (p : Option ℕ) (t : ItemTree D) (ts : List (ItemTree D)) :
    blocks p (t :: ts) =
      {(t.addr, ⟨firstOf ts, p, t.data⟩)} + (t.inner + blocks (some t.addr) ts) := by
  rw [blocks, blocks, innerAll, List.map_cons, top, chain_cons, first_top]
  abel

theorem inner_item (a : ℕ) (l : ItemLabel D) (children : List (ItemTree D)) :
    (item a l children).inner = blocks none children := by
  rw [inner, blocks]

/-- The blocks of a tree that stands between `p` and `q`. -/
def treeBlocks (p q : Option ℕ) (t : ItemTree D) : Multiset (ℕ × CJsonNode D) :=
  {(t.addr, ⟨q, p, t.data⟩)} + t.inner

theorem blocks_singleton (p : Option ℕ) (t : ItemTree D) : blocks p [t] = treeBlocks p none t := by
  rw [blocks_cons, treeBlocks]
  exact congrArg (_ + ·) (add_zero t.inner)

theorem innerAll_append (ts us : List (ItemTree D)) :
    innerAll (ts ++ us) = innerAll ts + innerAll us := by
  induction ts with
  | nil => rw [List.nil_append, innerAll, zero_add]
  | cons t ts ih => rw [List.cons_append, innerAll, innerAll, ih, add_assoc]

theorem textsAll_append (ts us : List (ItemTree D)) :
    textsAll (ts ++ us) = textsAll ts + textsAll us := by
  induction ts with
  | nil => rw [List.nil_append, textsAll, zero_add]
  | cons t ts ih => rw [List.cons_append, textsAll, textsAll, ih, add_assoc]

theorem leakyAll_append (ts us : List (ItemTree D)) :
    leakyAll (ts ++ us) = leakyAll ts + leakyAll us := by
  induction ts with
  | nil => rw [List.nil_append, leakyAll, zero_add]
  | cons t ts ih => rw [List.cons_append, leakyAll, leakyAll, ih, add_assoc]

mutual

theorem card_inner : ∀ t : ItemTree D, t.inner.card + 1 = size t
  | item _ _ children => by
    have hchildren := card_innerAll children
    rw [inner, size, Multiset.card_add, card_chain, List.length_map]
    omega
  | reference _ _ _ => rfl

theorem card_innerAll : ∀ ts : List (ItemTree D), (innerAll ts).card + ts.length = sizeAll ts
  | [] => rfl
  | t :: ts => by
    have ht := card_inner t
    have hts := card_innerAll ts
    rw [innerAll, sizeAll, Multiset.card_add, List.length_cons]
    omega

end

theorem card_blocks (p : Option ℕ) (ts : List (ItemTree D)) :
    (blocks p ts).card = sizeAll ts := by
  rw [blocks, Multiset.card_add, card_chain, List.length_map, ← card_innerAll, Nat.add_comm]

end ItemTree

end OsaBase
