import OsaBase.Json.Build
import OsaBase.Json.Exact
import OsaBase.Json.Safety
import OsaBase.Json.Steps

/-!
# What the parser builds in memory

The parser in memory follows the one that only reads the text. When there is memory for all items
and strings they return the same tree; when there is not, or when the text is malformed, the items
that were linked so far are deleted again.
-/

open Blocks Json Links

namespace OsaBase

open CJsonHeap ItemTree

variable {D : Type}

namespace ItemTree

mutual

/-- The names are freed with the items, and nothing refers to other trees. -/
def Own : ItemTree D → Prop
  | item _ l children => l.name.isConst = false ∧ OwnAll children
  | reference _ _ _ => False

def OwnAll : List (ItemTree D) → Prop
  | [] => True
  | t :: ts => Own t ∧ OwnAll ts

end

theorem ownAll_snoc {ts : List (ItemTree D)} {t : ItemTree D} :
    OwnAll (ts ++ [t]) ↔ OwnAll ts ∧ Own t := by
  induction ts with
  | nil => exact ⟨fun h ↦ ⟨trivial, h.1⟩, fun h ↦ ⟨h.2, trivial⟩⟩
  | cons u ts ih => rw [List.cons_append, OwnAll, OwnAll, ih, and_assoc]

mutual

theorem Own.leaky : ∀ {t : ItemTree D}, Own t → t.leaky = 0
  | item _ l children, h => by
    rw [ItemTree.leaky, TreeName.leaky_eq_zero h.1, h.2.leaky, zero_add]
  | reference _ _ _, h => h.elim

theorem OwnAll.leaky : ∀ {ts : List (ItemTree D)}, OwnAll ts → leakyAll ts = 0
  | [], _ => rfl
  | t :: ts, h => by rw [leakyAll, h.1.leaky, h.2.leaky, zero_add]

end

mutual

theorem Own.plain : ∀ {t : ItemTree D}, Own t → t.Plain
  | item _ _ _, h => h.2.plain
  | reference _ _ _, h => h.elim

theorem OwnAll.plain : ∀ {ts : List (ItemTree D)}, OwnAll ts → PlainAll ts
  | [], _ => trivial
  | _ :: _, h => ⟨h.1.plain, h.2.plain⟩

end

def children : ItemTree D → List (ItemTree D)
  | item _ _ children => children
  | reference _ _ _ => []

theorem toItems_snoc (ts : List (ItemTree D)) (t : ItemTree D) :
    toItems (ts ++ [t]) = toItems ts ++ [t.toItem] := by
  induction ts with
  | nil => rfl
  | cons u ts ih => rw [List.cons_append, toItems, toItems, ih, List.cons_append]

end ItemTree

namespace CJsonHeap

variable {h h' : CJsonHeap D} {p q p' q' : Option ℕ} {I I' : Multiset (ℕ × CJsonNode D)}
  {T T' : Multiset (ℕ × List UInt8)} {len len' a : ℕ} {l : ItemLabel D} {t u : ItemTree D}
  {done : List (ItemTree D)} {β γ : Type} {Q Q' : ItemTree D → Prop} {view : ItemTree D → β}
  {view' : ItemTree D → γ} {x : Option (Option (List UInt8) × CJsonHeap D)}
  {e : Except ParseError (β × List UInt8)}

/-! ## Outcomes -/

/-- What a function of the parser does, and what it does with the text alone: it stops with a tree
between `p` and `q` that satisfies `Q`. -/
inductive Ends (h : CJsonHeap D) (p q : Option ℕ) (I : Multiset (ℕ × CJsonNode D))
    (T : Multiset (ℕ × List UInt8)) (len : ℕ) (Q : ItemTree D → Prop) (view : ItemTree D → β) :
    Option (Option (List UInt8) × CJsonHeap D) → Except ParseError (β × List UInt8) → Prop
  | stuck : Ends h p q I T len Q view none (.error .overrun)
  | null {h' : CJsonHeap D} {t : ItemTree D} {e : Except ParseError (β × List UInt8)}
      (hg : Grows h h') (ht : Q t)
      (hh : h'.Holds (treeBlocks p q t + I) (t.texts + T))
      (he : (∃ ep, e = .error (.malformed ep)) ∨ Fails h h') :
      Ends h p q I T len Q view (some (none, h')) e
  | ends {h' : CJsonHeap D} {t : ItemTree D} {rest : List UInt8}
      (hg : Grows h h') (ht : Q t)
      (hh : h'.Holds (treeBlocks p q t + I) (t.texts + T)) (hlen : rest.length ≤ len) :
      Ends h p q I T len Q view (some (some rest, h')) (.ok (view t, rest))

theorem Ends.of_grows (hx : Ends h' p q I T len Q view x e) (hg : Grows h h') :
    Ends h p q I T len Q view x e := by
  cases hx with
  | stuck => exact .stuck
  | null hg' ht hh he => exact .null (hg.trans hg') ht hh (he.imp_right hg.fails)
  | ends hg' ht hh hlen => exact .ends (hg.trans hg') ht hh hlen

theorem Ends.congr {x' : Option (Option (List UInt8) × CJsonHeap D)}
    (hx : Ends h p q I T len Q view x e) (heq : x' = x) : Ends h p q I T len Q view x' e := by
  rw [heq]
  exact hx

theorem Ends.imp (hx : Ends h p q I T len Q view x e) (hQ : ∀ t, Q t → Q' t)
    (hlen : len ≤ len') : Ends h p q I T len' Q' view x e := by
  cases hx with
  | stuck => exact .stuck
  | null hg ht hh he => exact .null hg (hQ _ ht) hh he
  | ends hg ht hh hrest => exact .ends hg (hQ _ ht) hh (hrest.trans hlen)

/-- The rest of a function, behind a call that may return NULL; it may look at more of the tree than
the call. -/
theorem Ends.bind {f : List UInt8 → CJsonHeap D → Option (Option (List UInt8) × CJsonHeap D)}
    {g : β × List UInt8 → Except ParseError (γ × List UInt8)} (hx : Ends h p q I T len Q view x e)
    (hctx : ∀ t, Q t → ∃ t', Q' t' ∧ treeBlocks p q t + I = treeBlocks p' q' t' + I' ∧
      t.texts + T = t'.texts + T')
    (hf : ∀ h' t rest, Q t →
      h'.Holds (treeBlocks p q t + I) (t.texts + T) → rest.length ≤ len →
      Ends h' p' q' I' T' len' Q' view' (f rest h') (g (view t, rest))) :
    Ends h p' q' I' T' len' Q' view' (x >>= fun r ↦ orNull r f) (e >>= g) := by
  cases hx with
  | stuck => exact .stuck
  | @null _ t _ hg ht hh he =>
      obtain ⟨t', ht', hI, hT⟩ := hctx t ht
      refine .null hg ht' (hh.congr hI hT) (he.imp_left ?_)
      rintro ⟨ep, rfl⟩
      exact ⟨ep, rfl⟩
  | ends hg ht hh hlen => exact (hf _ _ _ ht hh hlen).of_grows hg

theorem Ends.map {F : β → γ} (hx : Ends h p q I T len Q view x e)
    (hview : ∀ t, Q t → view' t = F (view t)) :
    Ends h p q I T len Q view' x (e >>= fun r ↦ .ok (F r.1, r.2)) := by
  cases hx with
  | stuck => exact .stuck
  | null hg ht hh he =>
      refine .null hg ht hh (he.imp_left ?_)
      rintro ⟨ep, rfl⟩
      exact ⟨ep, rfl⟩
  | @ends _ t rest hg ht hh hlen =>
      have hend : Ends h p q I T len Q view' _ (.ok (view' t, rest)) := .ends hg ht hh hlen
      rw [hview t ht] at hend
      exact hend

/-! ## Items without children -/

theorem ends_store {T₀ : Multiset (ℕ × List UInt8)} {rest : List UInt8} (l' : ItemLabel D)
    {f : CJsonData D → CJsonData D} (hh : h.Holds (treeBlocks p q (.item a l []) + I) T₀)
    (hdata : f (ItemTree.item a l []).data = (ItemTree.item a l' []).data)
    (hT : T₀ = (ItemTree.item a l' []).texts + T) (hQ : Q (.item a l' []))
    (hlen : rest.length ≤ len) :
    Ends h p q I T len Q toItem (h.store a rest f)
      (.ok ((ItemTree.item a l' []).toItem, rest)) := by
  rw [treeBlocks, add_assoc] at hh
  obtain ⟨h', hwrite, hh', hk⟩ := hh.write f
  have hstore : h.store a rest f = some (some rest, h') := bind_of_some hwrite rfl
  rw [hstore]
  refine .ends hk.grows hQ (hh'.congr ?_ hT) hlen
  rw [treeBlocks, hdata, add_assoc]
  rfl

theorem length_unescape {k : ℕ} {str : List UInt8} {r : List UInt8 × List UInt8}
    (hr : unescape k str = some r) : r.2.length ≤ str.length := by
  fun_induction unescape k str generalizing r with
  | case1 | case4 =>
      cases hr
      exact le_rfl
  | case2 | case6 => cases hr
  | case3 _ _ _ ih => exact (ih hr).trans (Nat.le_succ _)
  | case5 _ _ _ _ ih =>
      obtain ⟨r', hr', rfl⟩ := Option.map_eq_some_iff.mp hr
      exact (ih hr').trans (Nat.le_succ _)
  | case7 _ _ _ _ ih | case8 _ _ _ _ _ _ ih =>
      obtain ⟨r', hr', rfl⟩ := Option.map_eq_some_iff.mp hr
      exact (ih hr').trans (Nat.le_add_right _ 2)

/-- A block for a string. -/
theorem Holds.mallocText (hh : h.Holds I T) (hm : h.memory h.fresh = true) (s : List UInt8) :
    Holds { h with texts := Function.update h.texts h.fresh (some s), fresh := h.fresh + 1 } I
      ({(h.fresh, s)} + T) := by
  obtain ⟨h', hdup, hh', -⟩ := hh.strdup_some hm (show h.chars (.caller s) = some s from rfl)
  rw [cJsonStrdup, chars, Option.map_some, malloc, hm] at hdup
  cases hdup
  exact hh'

theorem Holds.malloc (hh : h.Holds I T) : h.malloc.2.Holds I T where
  items := hh.items
  texts := hh.texts
  items_lt := fun x hx ↦ Nat.lt_succ_of_lt (hh.items_lt x hx)
  texts_lt := fun x hx ↦ Nat.lt_succ_of_lt (hh.texts_lt x hx)

/-- The string is hung below the item, unless there is no memory for it. -/
theorem ends_string (hh : h.Holds (treeBlocks p q (.item a l []) + I)
    ((ItemTree.item a l []).texts + T)) (hvalue : l.valuestring = none) (str : List UInt8) :
    Ends h p q I T str.length (fun t ↦ ∃ type v, t = .item a { l with type, valuestring := v } [])
      toItem (h.parseString a str) (OsaBase.parseString (ItemTree.item a l []).toItem str) := by
  have hitem : ∃ type v, ItemTree.item a l [] = .item a { l with type, valuestring := v } [] :=
    ⟨l.type, none, by rw [← hvalue]⟩
  rw [CJsonHeap.parseString, OsaBase.parseString]
  split
  · exact .null (.refl h) hitem hh (.inl ⟨_, rfl⟩)
  cases hscan : scanString str.tail with
  | none => exact .stuck
  | some len =>
      cases hm : h.memory h.fresh with
      | false =>
          have hc : Mallocs h h.malloc.2 := ⟨rfl, rfl⟩
          have hmalloc : h.malloc = (none, h.malloc.2) := by
            rw [malloc, hm]
            rfl
          rw [hmalloc]
          exact .null hc.grows hitem hh.malloc (.inr (hc.fails hm))
      | true =>
          have hmalloc : h.malloc = (some h.fresh, h.malloc.2) := by
            rw [malloc, hm]
            rfl
          rw [hmalloc]
          cases hunescape : unescape 0 str.tail with
          | none => exact .stuck
          | some r =>
              obtain ⟨out, ptr⟩ := r
              have hptr := length_unescape hunescape
              have htail : str.tail.length ≤ str.length := (List.tail_suffix str).length_le
              by_cases hlen : len < out.length
              · simp only [orNull, Option.bind_eq_bind, Option.bind_some, if_pos hlen]
                exact .stuck
              · simp only [orNull, Option.bind_eq_bind, Option.bind_some, if_neg hlen]
                refine (ends_store { l with type := .string, valuestring := some (h.fresh, out) }
                  (hh.mallocText hm out) rfl ?_ ⟨_, _, rfl⟩ ?_).of_grows ⟨Nat.le_succ _, rfl⟩
                · rw [texts_leaf, texts_leaf, ItemLabel.value_none hvalue, ItemLabel.value_some rfl]
                  abel
                · split
                  · exact (List.tail_suffix ptr).length_le.trans (hptr.trans htail)
                  · exact hptr.trans htail

variable [CDouble D]

theorem ends_number (hh : h.Holds (treeBlocks p q (.item a l []) + I)
    ((ItemTree.item a l []).texts + T)) (num : List UInt8) :
    Ends h p q I T num.length (fun t ↦ ∃ l', l'.name = l.name ∧ t = .item a l' []) toItem
      (h.parseNumber a num)
      (.ok (OsaBase.parseNumber (ItemTree.item a l []).toItem num)) := by
  have hlen := (passes_number (.new : CJson D) num).suffix.length_le
  let n := (OsaBase.parseNumber (.new : CJson D) num).1
  let l' : ItemLabel D :=
    { l with type := .number, valueint := n.valueint, valuedouble := n.valuedouble }
  have hQ : ∃ l'', l''.name = l.name ∧ ItemTree.item a l' [] = .item a l'' [] := ⟨l', rfl, rfl⟩
  exact ends_store l' hh rfl rfl hQ hlen

/-! ## Chains of items -/

/-- A new item, as `memset` leaves it. -/
def newLeaf (k : ℕ) : ItemTree D := .item k (plainLabel .false) []

/-- What the parser does with the text of an item. -/
structure ParsesAll (D : Type) [CDouble D] (fuel : ℕ) : Prop where
  value : ∀ (h : CJsonHeap D) p q I T a l value, 3 * value.length + 1 ≤ fuel →
    l.valuestring = none → l.name.isConst = false →
    h.Holds (treeBlocks p q (.item a l []) + I) ((ItemTree.item a l []).texts + T) →
    Ends h p q I T value.length (fun t ↦ t.addr = a ∧ t.Own) toItem (h.parseValue fuel a value)
      (OsaBase.parseValue fuel (ItemTree.item a l []).toItem value)
  array : ∀ (h : CJsonHeap D) p q I T a l value, 3 * value.length ≤ fuel →
    peek value = byte '[' → l.valuestring = none → l.name.isConst = false →
    h.Holds (treeBlocks p q (.item a l []) + I) ((ItemTree.item a l []).texts + T) →
    Ends h p q I T value.length (fun t ↦ t.addr = a ∧ t.Own) toItem (h.parseArray fuel a value)
      (OsaBase.parseArray fuel (ItemTree.item a l []).toItem value)
  items : ∀ (h : CJsonHeap D) p q I T a l done u value, 3 * value.length + 1 ≤ fuel →
    OwnAll (done ++ [u]) →
    h.Holds (treeBlocks p q (.item a l (done ++ [u])) + I)
      ((ItemTree.item a l (done ++ [u])).texts + T) →
    Ends h p q I T value.length (fun t ↦ ∃ ts, t = .item a l ts ∧ OwnAll ts)
      (fun t ↦ toItems t.children) (h.parseItems fuel u.addr value)
      (OsaBase.parseItems fuel (toItems (done ++ [u])) value)
  object : ∀ (h : CJsonHeap D) p q I T a l value, 3 * value.length ≤ fuel →
    peek value = byte '{' → l.valuestring = none → l.name.isConst = false →
    h.Holds (treeBlocks p q (.item a l []) + I) ((ItemTree.item a l []).texts + T) →
    Ends h p q I T value.length (fun t ↦ t.addr = a ∧ t.Own) toItem (h.parseObject fuel a value)
      (OsaBase.parseObject fuel (ItemTree.item a l []).toItem value)
  member : ∀ (h : CJsonHeap D) p q I T a value, 3 * value.length + 1 ≤ fuel →
    h.Holds (treeBlocks p q (newLeaf a) + I) ((newLeaf a : ItemTree D).texts + T) →
    Ends h p q I T value.length (fun t ↦ t.addr = a ∧ t.Own) toItem (h.parseMember fuel a value)
      (OsaBase.parseMember fuel value)
  members : ∀ (h : CJsonHeap D) p q I T a l done u value, 3 * value.length + 1 ≤ fuel →
    OwnAll (done ++ [u]) →
    h.Holds (treeBlocks p q (.item a l (done ++ [u])) + I)
      ((ItemTree.item a l (done ++ [u])).texts + T) →
    Ends h p q I T value.length (fun t ↦ ∃ ts, t = .item a l ts ∧ OwnAll ts)
      (fun t ↦ toItems t.children) (h.parseMembers fuel u.addr value)
      (OsaBase.parseMembers fuel (toItems (done ++ [u])) value)

variable {fuel : ℕ}

theorem parsesAll_value (hall : ParsesAll D fuel) (value : List UInt8)
    (hfuel : 3 * value.length ≤ fuel) (hvalue : l.valuestring = none)
    (hname : l.name.isConst = false) (hh : h.Holds (treeBlocks p q (.item a l []) + I)
      ((ItemTree.item a l []).texts + T)) :
    Ends h p q I T value.length (fun t ↦ t.addr = a ∧ t.Own) toItem
      (h.parseValue (fuel + 1) a value)
      (OsaBase.parseValue (fuel + 1) (ItemTree.item a l []).toItem value) := by
  have hown : ∀ l' : ItemLabel D, l'.name = l.name → (ItemTree.item a l' []).addr = a ∧
      (ItemTree.item a l' []).Own := fun l' hl' ↦ ⟨rfl, hl' ▸ hname, trivial⟩
  rw [CJsonHeap.parseValue, OsaBase.parseValue]
  split
  · exact ends_store { l with type := .null } hh rfl rfl (hown _ rfl)
      (List.drop_suffix 4 value).length_le
  split
  · exact ends_store { l with type := .false } hh rfl rfl (hown _ rfl)
      (List.drop_suffix 5 value).length_le
  split
  · exact ends_store { l with type := .true, valueint := 1 } hh rfl rfl (hown _ rfl)
      (List.drop_suffix 4 value).length_le
  split
  · refine (ends_string hh hvalue value).imp ?_ le_rfl
    rintro _ ⟨type, v, rfl⟩
    exact hown _ rfl
  split
  · refine (ends_number hh value).imp ?_ le_rfl
    rintro _ ⟨l', hl', rfl⟩
    exact hown l' hl'
  split
  · next harray => exact hall.array h p q I T a l value hfuel harray hvalue hname hh
  split
  · next hobject => exact hall.object h p q I T a l value hfuel hobject hvalue hname hh
  · exact .null (.refl h) (hown l rfl) hh (.inl ⟨_, rfl⟩)

variable {y : CJsonHeap D → ℕ → Option (Option (List UInt8) × CJsonHeap D)}
  {e : Except ParseError (CJson D × List UInt8)}
  {f : CJsonHeap D → ℕ → List UInt8 → Option (Option (List UInt8) × CJsonHeap D)}
  {g : List (CJson D) → List UInt8 → Except ParseError (List (CJson D) × List UInt8)}

/-- The text `e` is that of one more item, which `y` parses, and then `f` goes on. -/
structure Continues (p q : Option ℕ) (I : Multiset (ℕ × CJsonNode D))
    (T : Multiset (ℕ × List UInt8)) (a : ℕ) (l : ItemLabel D) (done : List (ItemTree D))
    (len len' : ℕ) (y : CJsonHeap D → ℕ → Option (Option (List UInt8) × CJsonHeap D))
    (e : Except ParseError (CJson D × List UInt8))
    (f : CJsonHeap D → ℕ → List UInt8 → Option (Option (List UInt8) × CJsonHeap D))
    (g : List (CJson D) → List UInt8 → Except ParseError (List (CJson D) × List UInt8)) :
    Prop where
  item : ∀ (h : CJsonHeap D) p q I T k,
    h.Holds (treeBlocks p q (newLeaf k) + I) ((newLeaf k : ItemTree D).texts + T) →
    Ends h p q I T len (fun t ↦ t.addr = k ∧ t.Own) toItem (y h k) e
  rest : ∀ (h : CJsonHeap D) (t : ItemTree D) value, value.length ≤ len → t.Own →
    h.Holds (treeBlocks p q (.item a l (done ++ [t])) + I)
      ((ItemTree.item a l (done ++ [t])).texts + T) →
    Ends h p q I T len' (fun t ↦ ∃ ts, t = .item a l ts ∧ OwnAll ts) (fun t ↦ toItems t.children)
      (f h t.addr value) (g (toItems (done ++ [t])) value)

/-- The item at `k`, which is linked already, is parsed. -/
theorem ends_child (hc : Continues p q I T a l done len len' y e f g) (hdone : OwnAll done) {k : ℕ}
    (hh : h.Holds (treeBlocks p q (.item a l (done ++ [newLeaf k])) + I)
      ((ItemTree.item a l (done ++ [newLeaf k])).texts + T)) :
    Ends h p q I T len' (fun t ↦ ∃ ts, t = .item a l ts ∧ OwnAll ts) (fun t ↦ toItems t.children)
      (do
        let r ← y h k
        orNull r fun value h ↦ f h k value)
      (do
        let r ← e
        g (toItems done ++ [r.1]) r.2) := by
  obtain ⟨p', q', J, hJ⟩ := (Ctx.item a l done .hole []).treeBlocks_plug k p q
  have hI : ∀ t : ItemTree D, t.addr = k →
      treeBlocks p q (.item a l (done ++ [t])) + I = treeBlocks p' q' t + (J + I) := by
    intro t ht
    rw [← add_assoc, ← hJ t ht]
    rfl
  have hT : ∀ t : ItemTree D, (ItemTree.item a l (done ++ [t])).texts + T =
      t.texts + ((Ctx.item a l done .hole []).texts + T) := by
    intro t
    rw [← add_assoc, ← Ctx.texts_plug]
    rfl
  refine (hc.item h p' q' (J + I) _ k (hh.congr (hI _ rfl) (hT _))).bind ?_ ?_
  · rintro t ⟨ht, hown⟩
    exact ⟨.item a l (done ++ [t]), ⟨_, rfl, ownAll_snoc.mpr ⟨hdone, hown⟩⟩, (hI t ht).symm,
      (hT t).symm⟩
  · rintro h' t value ⟨rfl, hown⟩ hh' hlen
    rw [← toItems_snoc]
    exact hc.rest h' t value hlen hown (hh'.congr (hI t rfl).symm (hT t).symm)

/-- An item is created for the text, and linked by `link`. -/
theorem ends_newItem (hc : Continues p q I T a l done len len' y e f g) (hdone : OwnAll done)
    (hh : h.Holds (treeBlocks p q (.item a l done) + I) ((ItemTree.item a l done).texts + T)) :
    Ends h p q I T len' (fun t ↦ ∃ ts, t = .item a l ts ∧ OwnAll ts) (fun t ↦ toItems t.children)
      (orNull h.cJsonNewItem fun newItem h ↦ do
        let h ← (if (last none (done.map top)).isSome then
            h.suffixObject (last none (done.map top)) (some newItem)
          else h.write a fun d ↦ { d with child := some newItem })
        let r ← y h newItem
        orNull r fun value h ↦ f h newItem value)
      (do
        let r ← e
        g (toItems done ++ [r.1]) r.2) := by
  cases hm : h.memory h.fresh with
  | false =>
      obtain ⟨h', hnew, hh', hc'⟩ := hh.newItem_none hm zeros
      rw [cJsonNewItem, hnew]
      exact .null hc'.grows ⟨done, rfl, hdone⟩ hh' (.inr (hc'.fails hm))
  | true =>
      obtain ⟨h₁, hnew, hh₁, hc₁⟩ := hh.newItem_some hm zeros
      have hleaf : treeBlocks none none (newLeaf h.fresh : ItemTree D) =
          {(h.fresh, ⟨none, none, zeros⟩)} := add_zero _
      rw [← hleaf] at hh₁
      obtain ⟨h₂, hhang, hh₂, hk₂⟩ := hang_holds hh₁
      have htexts : (ItemTree.item a l (done ++ [newLeaf h.fresh])).texts =
          (ItemTree.item a l done).texts := by
        have hzero : (newLeaf h.fresh : ItemTree D).texts = 0 := rfl
        rw [ItemTree.texts, ItemTree.texts, textsAll_append, textsAll, textsAll, hzero, add_zero,
          add_zero]
      have hchild := ends_child hc hdone (hh₂.congr rfl (by rw [htexts]))
      refine Ends.of_grows ?_ (hc₁.grows.trans hk₂.grows)
      rw [cJsonNewItem, hnew, orNull]
      exact hchild.congr (bind_of_some hhang rfl)

/-- The first item below `a`. -/
theorem ends_firstItem (hc : Continues p q I T a l [] len len' y e f g)
    (hh : h.Holds (treeBlocks p q (.item a l []) + I) ((ItemTree.item a l []).texts + T)) :
    Ends h p q I T len' (fun t ↦ ∃ ts, t = .item a l ts ∧ OwnAll ts) (fun t ↦ toItems t.children)
      (do
        let r := h.cJsonNewItem
        let h ← r.2.write a fun d ↦ { d with child := r.1 }
        orNull (r.1, h) fun child h ↦ do
          let r ← y h child
          orNull r fun value h ↦ f h child value)
      (do
        let r ← e
        g [r.1] r.2) := by
  cases hm : h.memory h.fresh with
  | false =>
      obtain ⟨h₁, hnew, hh₁, hc₁⟩ := hh.newItem_none hm zeros
      rw [treeBlocks, add_assoc] at hh₁
      obtain ⟨h₂, hwrite, hh₂, hk₂⟩ := hh₁.write fun d ↦ { d with child := none }
      refine (Ends.null (hc₁.grows.trans hk₂.grows) ⟨[], rfl, trivial⟩ (hh₂.congr ?_ rfl)
        (.inr ((hc₁.fails hm).trans hk₂.grows))).congr ?_
      · rw [treeBlocks, add_assoc]
        rfl
      · rw [cJsonNewItem, hnew]
        exact bind_of_some hwrite rfl
  | true =>
      obtain ⟨h₁, hnew, -, -⟩ := hh.newItem_some hm zeros
      refine (ends_newItem hc trivial hh).congr ?_
      rw [cJsonNewItem, hnew]
      rfl

/-- One more item behind `u`. -/
theorem ends_nextItem (hc : Continues p q I T a l (done ++ [u]) len len' y e f g)
    (hdone : OwnAll (done ++ [u])) (hh : h.Holds (treeBlocks p q (.item a l (done ++ [u])) + I)
      ((ItemTree.item a l (done ++ [u])).texts + T)) :
    Ends h p q I T len' (fun t ↦ ∃ ts, t = .item a l ts ∧ OwnAll ts) (fun t ↦ toItems t.children)
      (orNull h.cJsonNewItem fun newItem h ↦ do
        let h ← h.suffixObject (some u.addr) (some newItem)
        let r ← y h newItem
        orNull r fun value h ↦ f h newItem value)
      (do
        let r ← e
        g (toItems (done ++ [u]) ++ [r.1]) r.2) := by
  have hlast : last none ((done ++ [u]).map top) = some u.addr := by
    rw [List.map_append, last_append]
    rfl
  have hnext := ends_newItem hc hdone hh
  rw [hlast] at hnext
  exact hnext

/-! ## Arrays and objects -/

theorem parsesAll_items (hall : ParsesAll D fuel) (value : List UInt8)
    (hfuel : 3 * value.length ≤ fuel) (hdone : OwnAll (done ++ [u]))
    (hh : h.Holds (treeBlocks p q (.item a l (done ++ [u])) + I)
      ((ItemTree.item a l (done ++ [u])).texts + T)) :
    Ends h p q I T value.length (fun t ↦ ∃ ts, t = .item a l ts ∧ OwnAll ts)
      (fun t ↦ toItems t.children) (h.parseItems (fuel + 1) u.addr value)
      (OsaBase.parseItems (fuel + 1) (toItems (done ++ [u])) value) := by
  rw [CJsonHeap.parseItems, OsaBase.parseItems]
  split
  · next hcomma =>
    have hlen := tail_length (by decide) hcomma
    have hskip := skip_length value.tail
    exact ends_nextItem
      (f := fun h child value ↦ h.parseItems fuel child (skip value))
      (g := fun child value ↦ OsaBase.parseItems fuel child (skip value))
      { item := fun h p q I T k hk ↦ hall.value h p q I T k _ _ (by omega) rfl rfl hk
        rest := fun h t rest hrest ht hh ↦ by
          have := skip_length rest
          exact (hall.items h p q I T a l _ t _ (by omega) (ownAll_snoc.mpr ⟨hdone, ht⟩) hh).imp
            (fun _ h ↦ h) (by omega) } hdone hh
  split
  · exact .ends (.refl h) ⟨_, rfl, hdone⟩ hh (List.tail_suffix value).length_le
  · exact .null (.refl h) ⟨_, rfl, hdone⟩ hh (.inl ⟨_, rfl⟩)

theorem parsesAll_members (hall : ParsesAll D fuel) (value : List UInt8)
    (hfuel : 3 * value.length ≤ fuel) (hdone : OwnAll (done ++ [u]))
    (hh : h.Holds (treeBlocks p q (.item a l (done ++ [u])) + I)
      ((ItemTree.item a l (done ++ [u])).texts + T)) :
    Ends h p q I T value.length (fun t ↦ ∃ ts, t = .item a l ts ∧ OwnAll ts)
      (fun t ↦ toItems t.children) (h.parseMembers (fuel + 1) u.addr value)
      (OsaBase.parseMembers (fuel + 1) (toItems (done ++ [u])) value) := by
  rw [CJsonHeap.parseMembers, OsaBase.parseMembers]
  split
  · next hcomma =>
    have hlen := tail_length (by decide) hcomma
    have hskip := skip_length value.tail
    exact ends_nextItem
      { item := fun h p q I T k hk ↦ hall.member h p q I T k _ (by omega) hk
        rest := fun h t rest hrest ht hh ↦
          (hall.members h p q I T a l _ t _ (by omega) (ownAll_snoc.mpr ⟨hdone, ht⟩) hh).imp
            (fun _ h ↦ h) (by omega) } hdone hh
  split
  · exact .ends (.refl h) ⟨_, rfl, hdone⟩ hh (List.tail_suffix value).length_le
  · exact .null (.refl h) ⟨_, rfl, hdone⟩ hh (.inl ⟨_, rfl⟩)

/-- The items of an array or an object, behind its bracket. -/
theorem ends_children (hc : Continues p q I T a l [] len len' y e f g)
    (hname : l.name.isConst = false)
    (hh : h.Holds (treeBlocks p q (.item a l []) + I) ((ItemTree.item a l []).texts + T)) :
    Ends h p q I T len' (fun t ↦ t.addr = a ∧ t.Own) toItem
      (do
        let r := h.cJsonNewItem
        let h ← r.2.write a fun d ↦ { d with child := r.1 }
        orNull (r.1, h) fun child h ↦ do
          let r ← y h child
          orNull r fun value h ↦ f h child value)
      (do
        let r ← e
        let r ← g [r.1] r.2
        .ok ({ (ItemTree.item a l []).toItem with child := r.1 }, r.2)) := by
  have hmap := (ends_firstItem hc hh).map (F := fun child ↦
    { (ItemTree.item a l []).toItem with child }) (fun t ⟨ts, ht, _⟩ ↦
      show t.toItem = { (ItemTree.item a l []).toItem with child := toItems t.children } by
        rw [ht]
        rfl)
  rw [bind_assoc] at hmap
  refine hmap.imp ?_ le_rfl
  rintro _ ⟨ts, rfl, hts⟩
  exact ⟨rfl, hname, hts⟩

omit [CDouble D] in
/-- The type of the item is set before its text is read. -/
theorem Holds.writeType (hh : h.Holds (treeBlocks p q (.item a l []) + I)
    ((ItemTree.item a l []).texts + T)) (type : CJsonType) :
    ∃ h', h.write a (fun d ↦ { d with type }) = some h' ∧ Keeps h h' ∧
      h'.Holds (treeBlocks p q (.item a { l with type } []) + I)
        ((ItemTree.item a { l with type } []).texts + T) := by
  rw [treeBlocks, add_assoc] at hh
  obtain ⟨h', hwrite, hh', hk⟩ := hh.write fun d ↦ { d with type }
  refine ⟨h', hwrite, hk, hh'.congr ?_ rfl⟩
  rw [treeBlocks, add_assoc]
  rfl

theorem parsesAll_array (hall : ParsesAll D fuel) (value : List UInt8)
    (hfuel : 3 * value.length ≤ fuel + 1) (hpeek : peek value = byte '[')
    (hname : l.name.isConst = false) (hh : h.Holds (treeBlocks p q (.item a l []) + I)
      ((ItemTree.item a l []).texts + T)) :
    Ends h p q I T value.length (fun t ↦ t.addr = a ∧ t.Own) toItem
      (h.parseArray (fuel + 1) a value)
      (OsaBase.parseArray (fuel + 1) (ItemTree.item a l []).toItem value) := by
  have hlen := tail_length (by decide) hpeek
  have hskip := skip_length value.tail
  obtain ⟨h', hwrite, hk, hh'⟩ := hh.writeType .array
  rw [CJsonHeap.parseArray, OsaBase.parseArray, if_neg (not_not.mpr hpeek),
    if_neg (not_not.mpr hpeek)]
  refine Ends.of_grows ?_ hk.grows
  refine Ends.congr ?_ (bind_of_some hwrite rfl)
  by_cases hclose : peek (skip value.tail) = byte ']'
  · rw [if_pos hclose, if_pos hclose]
    have := (List.tail_suffix (skip value.tail)).length_le
    exact .ends (.refl h') ⟨rfl, hname, trivial⟩ hh' (by omega)
  · rw [if_neg hclose, if_neg hclose]
    have hagain := skip_length (skip value.tail)
    have hc : Continues p q I T a { l with type := .array } []
        (skip (skip value.tail)).length value.length
        (fun h child ↦ h.parseValue fuel child (skip (skip value.tail)))
        (OsaBase.parseValue fuel .new (skip (skip value.tail)))
        (fun h child value ↦ h.parseItems fuel child (skip value))
        fun child value ↦ OsaBase.parseItems fuel child (skip value) :=
      { item := fun h p q I T k hk ↦ hall.value h p q I T k _ _ (by omega) rfl rfl hk
        rest := fun h t rest hrest ht hh ↦ by
          have := skip_length rest
          exact (hall.items h p q I T a _ [] t _ (by omega) ⟨ht, trivial⟩ hh).imp
            (fun _ h ↦ h) (by omega) }
    exact ends_children hc hname hh'

theorem parsesAll_object (hall : ParsesAll D fuel) (value : List UInt8)
    (hfuel : 3 * value.length ≤ fuel + 1) (hpeek : peek value = byte '{')
    (hname : l.name.isConst = false) (hh : h.Holds (treeBlocks p q (.item a l []) + I)
      ((ItemTree.item a l []).texts + T)) :
    Ends h p q I T value.length (fun t ↦ t.addr = a ∧ t.Own) toItem
      (h.parseObject (fuel + 1) a value)
      (OsaBase.parseObject (fuel + 1) (ItemTree.item a l []).toItem value) := by
  have hlen := tail_length (by decide) hpeek
  have hskip := skip_length value.tail
  obtain ⟨h', hwrite, hk, hh'⟩ := hh.writeType .object
  rw [CJsonHeap.parseObject, OsaBase.parseObject, if_neg (not_not.mpr hpeek),
    if_neg (not_not.mpr hpeek)]
  refine Ends.of_grows ?_ hk.grows
  refine Ends.congr ?_ (bind_of_some hwrite rfl)
  by_cases hclose : peek (skip value.tail) = byte '}'
  · rw [if_pos hclose, if_pos hclose]
    have := (List.tail_suffix (skip value.tail)).length_le
    exact .ends (.refl h') ⟨rfl, hname, trivial⟩ hh' (by omega)
  · rw [if_neg hclose, if_neg hclose]
    have hagain := skip_length (skip value.tail)
    have hc : Continues p q I T a { l with type := .object } []
        (skip (skip value.tail)).length value.length
        (fun h child ↦ h.parseMember fuel child (skip (skip value.tail)))
        (OsaBase.parseMember fuel (skip (skip value.tail)))
        (fun h child value ↦ h.parseMembers fuel child value)
        fun child value ↦ OsaBase.parseMembers fuel child value :=
      { item := fun h p q I T k hk ↦ hall.member h p q I T k _ (by omega) hk
        rest := fun h t rest hrest ht hh ↦
          (hall.members h p q I T a _ [] t _ (by omega) ⟨ht, trivial⟩ hh).imp
            (fun _ h ↦ h) (by omega) }
    exact ends_children hc hname hh'

/-- The name that an item gets from its own string. -/
def nameOf : Option (ℕ × List UInt8) → TreeName
  | none => .none false
  | some (k, s) => .block false k s

/-- `child->string=child->valuestring;child->valuestring=0;` -/
theorem Holds.moveName {k : ℕ} {type : CJsonType} {v : Option (ℕ × List UInt8)}
    (hh : h.Holds (treeBlocks p q (.item k { (plainLabel .false : ItemLabel D) with
        type, valuestring := v } []) + I)
      ((ItemTree.item k { (plainLabel .false : ItemLabel D) with
        type, valuestring := v } []).texts + T)) :
    ∃ h', h.write k (fun d ↦ { d with
        string := d.valuestring.map .block, valuestring := none }) = some h' ∧
      Keeps h h' ∧
      h'.Holds (treeBlocks p q (.item k { (plainLabel .false : ItemLabel D) with
          type, name := nameOf v } []) + I)
        ((ItemTree.item k { (plainLabel .false : ItemLabel D) with
          type, name := nameOf v } []).texts + T) := by
  rw [treeBlocks, add_assoc] at hh
  obtain ⟨h', hwrite, hh', hk⟩ := hh.write fun d ↦ { d with
    string := d.valuestring.map .block, valuestring := none }
  refine ⟨h', hwrite, hk, hh'.congr ?_ ?_⟩
  · rw [treeBlocks, add_assoc]
    cases v <;> rfl
  · cases v <;> rfl

theorem parsesAll_member (hall : ParsesAll D fuel) {k : ℕ} (value : List UInt8)
    (hfuel : 3 * value.length ≤ fuel)
    (hh : h.Holds (treeBlocks p q (newLeaf k) + I) ((newLeaf k : ItemTree D).texts + T)) :
    Ends h p q I T value.length (fun t ↦ t.addr = k ∧ t.Own) toItem
      (h.parseMember (fuel + 1) k value) (OsaBase.parseMember (fuel + 1) value) := by
  rw [CJsonHeap.parseMember, OsaBase.parseMember]
  refine (ends_string hh rfl value).bind ?_ ?_
  · rintro _ ⟨type, v, rfl⟩
    exact ⟨.item k _ [], ⟨rfl, rfl, trivial⟩, rfl, rfl⟩
  · rintro h₁ _ rest ⟨type, v, rfl⟩ hh₁ hrest
    obtain ⟨h₂, hwrite, hk₂, hh₂⟩ := hh₁.moveName
    refine Ends.of_grows ?_ hk₂.grows
    refine Ends.congr ?_ (bind_of_some hwrite rfl)
    have hname : (nameOf v).isConst = false := by cases v <;> rfl
    have hskip := skip_length rest
    by_cases hcolon : peek (skip rest) = byte ':'
    · have hlen := tail_length (by decide) hcolon
      have hagain := skip_length (skip rest).tail
      simp only [if_neg (not_not.mpr hcolon)]
      have hitem : { (ItemTree.item k { (plainLabel .false : ItemLabel D) with
            type, valuestring := v } []).toItem with
          string := v.map Prod.snd, valuestring := none } =
          (ItemTree.item k { (plainLabel .false : ItemLabel D) with
            type, name := nameOf v } []).toItem := by
        cases v <;> rfl
      have hvalue := hall.value h₂ p q I T k _ (skip (skip rest).tail) (by omega) rfl hname hh₂
      rw [← hitem] at hvalue
      refine hvalue.bind (fun t ht ↦ ⟨t, ht, rfl, rfl⟩) ?_
      intro h₃ t last ht hh₃ hlast
      have := skip_length last
      exact .ends (.refl h₃) ht hh₃ (by omega)
    · simp only [if_pos hcolon]
      exact .null (t := .item k _ []) (.refl h₂) ⟨rfl, hname, trivial⟩ hh₂ (.inl ⟨_, rfl⟩)

theorem parsesAll (fuel : ℕ) : ParsesAll D fuel := by
  induction fuel with
  | zero =>
      have hnil : ∀ {c : UInt8} {p : List UInt8}, c ≠ 0 → peek p = c → ¬3 * p.length ≤ 0 := by
        intro c p hc hpeek
        have := tail_length hc hpeek
        omega
      constructor
      · intro h p q I T a l value hfuel
        omega
      · exact fun _ _ _ _ _ _ _ value hfuel hpeek ↦ absurd hfuel (hnil (by decide) hpeek)
      · intro h p q I T a l done u value hfuel
        omega
      · exact fun _ _ _ _ _ _ _ value hfuel hpeek ↦ absurd hfuel (hnil (by decide) hpeek)
      · intro h p q I T a value hfuel
        omega
      · intro h p q I T a l done u value hfuel
        omega
  | succ fuel ih =>
      constructor
      · exact fun h p q I T a l value hfuel hvalue hname hh ↦
          parsesAll_value ih value (by omega) hvalue hname hh
      · exact fun h p q I T a l value hfuel hpeek _ hname hh ↦
          parsesAll_array ih value hfuel hpeek hname hh
      · exact fun h p q I T a l done u value hfuel hdone hh ↦
          parsesAll_items ih value (by omega) hdone hh
      · exact fun h p q I T a l value hfuel hpeek _ hname hh ↦
          parsesAll_object ih value hfuel hpeek hname hh
      · exact fun h p q I T a value hfuel hh ↦ parsesAll_member ih value (by omega) hh
      · exact fun h p q I T a l done u value hfuel hdone hh ↦
          parsesAll_members ih value (by omega) hdone hh

/-! ## Whole texts -/

omit [CDouble D] in
/-- `cJSON_Delete` after an error leaves nothing of the tree. -/
theorem Holds.parseFails {α : Type} (hh : h.Holds (treeBlocks none none t + I) (t.texts + T))
    (ht : t.Own) :
    ∃ h', h.parseFails (α := α) t.addr = some (none, h') ∧ Keeps h h' ∧
      h'.Holds I T := by
  rw [← blocks_singleton] at hh
  obtain ⟨h', hdelete, hh', hk⟩ := cJsonDelete_holds hh
  rw [ht.leaky, zero_add] at hh'
  exact ⟨h', bind_of_some hdelete rfl, hk, hh'⟩

/-- What `cJSON_ParseWithOpts` does, and what it does with the text alone. Without a tree the heap
is as before. -/
inductive Parses (h : CJsonHeap D) (I : Multiset (ℕ × CJsonNode D))
    (T : Multiset (ℕ × List UInt8)) :
    Option (Option (ℕ × List UInt8) × CJsonHeap D) → Except ParseError (CJson D × List UInt8) → Prop
  | stuck : Parses h I T none (.error .overrun)
  | null {h' : CJsonHeap D} {e : Except ParseError (CJson D × List UInt8)}
      (hg : Grows h h') (hh : h'.Holds I T)
      (he : (∃ ep, e = .error (.malformed ep)) ∨ Fails h h') :
      Parses h I T (some (none, h')) e
  | ends {h' : CJsonHeap D} {t : ItemTree D} {rest : List UInt8} (hg : Grows h h') (ht : t.Own)
      (hh : h'.Holds (treeBlocks none none t + I) (t.texts + T)) :
      Parses h I T (some (some (t.addr, rest), h')) (.ok (t.toItem, rest))

omit [CDouble D] in
theorem Parses.congr {y y' : Option (Option (ℕ × List UInt8) × CJsonHeap D)}
    (hy : Parses h I T y e) (heq : y' = y) : Parses h I T y' e := by
  rw [heq]
  exact hy

omit [CDouble D] in
theorem Parses.of_grows {y : Option (Option (ℕ × List UInt8) × CJsonHeap D)}
    (hy : Parses h' I T y e) (hg : Grows h h') : Parses h I T y e := by
  cases hy with
  | stuck => exact .stuck
  | null hg' hh he => exact .null (hg.trans hg') hh (he.imp_right hg.fails)
  | ends hg' ht hh => exact .ends (hg.trans hg') ht hh

omit [CDouble D] in
theorem Parses.or {y : Option (Option (ℕ × List UInt8) × CJsonHeap D)}
    {e : Except ParseError (CJson D × List UInt8)} (hy : Parses h I T y e) :
    (y = none ∧ e = .error .overrun) ∨
      (∃ h', y = some (none, h') ∧ Grows h h' ∧ h'.Holds I T ∧
        ((∃ ep, e = .error (.malformed ep)) ∨ Fails h h')) ∨
      ∃ t rest h', y = some (some (t.addr, rest), h') ∧ Grows h h' ∧ t.Own ∧
        e = .ok (t.toItem, rest) ∧ h'.Holds (treeBlocks none none t + I) (t.texts + T) := by
  cases hy with
  | stuck => exact .inl ⟨rfl, rfl⟩
  | null hg hh he => exact .inr (.inl ⟨_, rfl, hg, hh, he⟩)
  | ends hg ht hh => exact .inr (.inr ⟨_, _, _, rfl, hg, ht, rfl, hh⟩)

omit [CDouble D] in
theorem Ends.finish {c : ℕ}
    (hx : Ends h none none I T len (fun t ↦ t.addr = c ∧ t.Own) toItem x e)
    (requireNullTerminated : Bool) :
    Parses h I T (x >>= fun r ↦ r.2.finishParse c requireNullTerminated r.1) (do
      let r ← e
      if requireNullTerminated then
        if peek (skip r.2) ≠ 0 then .error (.malformed (skip r.2)) else .ok (r.1, skip r.2)
      else .ok r) := by
  cases hx with
  | stuck => exact .stuck
  | null hg ht hh he =>
      obtain ⟨rfl, hown⟩ := ht
      obtain ⟨h₂, hfails, hk₂, hh₂⟩ := hh.parseFails (α := ℕ × List UInt8) hown
      refine (Parses.null (hg.trans hk₂.grows) hh₂ (he.imp ?_ fun hf ↦ hf.trans hk₂.grows)).congr
        hfails
      rintro ⟨ep, rfl⟩
      exact ⟨ep, rfl⟩
  | @ends h' t rest hg ht hh hlen =>
      obtain ⟨rfl, hown⟩ := ht
      cases requireNullTerminated with
      | false => exact .ends hg hown hh
      | true =>
          show Parses h I T
            (if peek (skip rest) ≠ 0 then h'.parseFails t.addr
              else some (some (t.addr, skip rest), h'))
            (if peek (skip rest) ≠ 0 then .error (.malformed (skip rest))
              else .ok (t.toItem, skip rest))
          by_cases hend : peek (skip rest) = 0
          · rw [if_neg (not_not.mpr hend), if_neg (not_not.mpr hend)]
            exact .ends hg hown hh
          · obtain ⟨h₂, hfails, hk₂, hh₂⟩ := hh.parseFails (α := ℕ × List UInt8) hown
            rw [if_pos hend, if_pos hend]
            exact (Parses.null (hg.trans hk₂.grows) hh₂ (.inl ⟨_, rfl⟩)).congr hfails

theorem parses (hh : h.Holds I T) (value : List UInt8) (requireNullTerminated : Bool) :
    Parses h I T (h.cJsonParseWithOpts value requireNullTerminated)
      (OsaBase.cJsonParseWithOpts value requireNullTerminated) := by
  cases hm : h.memory h.fresh with
  | false =>
      obtain ⟨h', hnew, hh', hc⟩ := hh.newItem_none hm zeros
      rw [CJsonHeap.cJsonParseWithOpts, cJsonNewItem, hnew]
      exact .null hc.grows hh' (.inr (hc.fails hm))
  | true =>
      obtain ⟨h₁, hnew, hh₁, hc₁⟩ := hh.newItem_some hm zeros
      have hskip := skip_length value
      have hleaf : h₁.Holds (treeBlocks none none (newLeaf h.fresh) + I)
          ((newLeaf h.fresh : ItemTree D).texts + T) :=
        hh₁.congr (congrArg (· + I) (add_zero _).symm) (zero_add T).symm
      have hvalue := (parsesAll (3 * value.length + 3)).value h₁ none none I T h.fresh _
        (skip value) (by omega) rfl rfl hleaf
      have hfinish := hvalue.finish requireNullTerminated
      rw [CJsonHeap.cJsonParseWithOpts, cJsonNewItem, hnew]
      exact hfinish.of_grows hc₁.grows

/-- In memory the parser returns what it makes of the text, unless `malloc` fails. The tree that it
returns can be deleted; without a tree nothing is left. -/
theorem cJsonParseWithOpts_builds (hh : h.Holds I T) (value : List UInt8)
    (requireNullTerminated : Bool) :
    (h.cJsonParseWithOpts value requireNullTerminated = none ∧
        OsaBase.cJsonParseWithOpts (D := D) value requireNullTerminated = .error .overrun) ∨
      (∃ h', h.cJsonParseWithOpts value requireNullTerminated = some (none, h') ∧ h'.Holds I T ∧
        ((∃ ep, OsaBase.cJsonParseWithOpts (D := D) value requireNullTerminated =
            .error (.malformed ep)) ∨ Fails h h')) ∨
      ∃ t rest h',
        h.cJsonParseWithOpts value requireNullTerminated = some (some (t.addr, rest), h') ∧
        OsaBase.cJsonParseWithOpts value requireNullTerminated = .ok (t.toItem, rest) ∧
        h'.Holds (treeBlocks none none t + I) (t.texts + T) ∧
        ∃ h'', h'.cJsonDelete (some t.addr) = some h'' ∧ h''.Holds I T := by
  rcases (parses hh value requireNullTerminated).or with hstuck | ⟨h', hnull, -, hh', he⟩ |
    ⟨t, rest, h', hparse, -, ht, he, hh'⟩
  · exact .inl hstuck
  · exact .inr (.inl ⟨h', hnull, hh', he⟩)
  · refine .inr (.inr ⟨t, rest, h', hparse, he, hh', ?_⟩)
    rw [← blocks_singleton] at hh'
    obtain ⟨h'', hdelete, hh'', -⟩ := cJsonDelete_holds hh'
    rw [ht.leaky, zero_add] at hh''
    exact ⟨h'', hdelete, hh''⟩

/-- Nothing is left of an array that is not closed. -/
theorem cJsonParseWithOpts_builds_malformed :
    ∃ h : CJsonHeap ℚ, (empty fun _ ↦ true).cJsonParseWithOpts [byte '[', byte '1'] false =
      some (none, h) ∧ h.Holds 0 0 := by
  rcases cJsonParseWithOpts_builds (D := ℚ) (holds_empty fun _ ↦ true) [byte '[', byte '1'] false
    with ⟨-, he⟩ | ⟨h, hnull, hh, -⟩ | ⟨t, rest, h', -, he, -⟩
  · cases he
  · exact ⟨h, hnull, hh⟩
  · cases he

/-! ## Forests -/

/-- What `cJSON_ParseWithOpts` does to a forest. -/
inductive ParseDone (value : List UInt8) (requireNullTerminated : Bool) :
    Forest D → Option ℕ → Forest D → Prop
  | null {F : Multiset (ItemTree D)} {G : Multiset (ℕ × List UInt8)} {k k' : ℕ} {m : ℕ → Bool}
      (hover : OsaBase.cJsonParseWithOpts (D := D) value requireNullTerminated ≠ .error .overrun)
      (hnull : (∃ ep, OsaBase.cJsonParseWithOpts (D := D) value requireNullTerminated =
        .error (.malformed ep)) ∨ ∃ a, k ≤ a ∧ a < k' ∧ m a = false) :
      ParseDone value requireNullTerminated ⟨F, G, k, m⟩ none ⟨F, G, k', m⟩
  | ends {F : Multiset (ItemTree D)} {G : Multiset (ℕ × List UInt8)} {k k' : ℕ} {m : ℕ → Bool}
      {t : ItemTree D} {rest : List UInt8} (ht : t.Own)
      (hparse : OsaBase.cJsonParseWithOpts value requireNullTerminated = .ok (t.toItem, rest)) :
      ParseDone value requireNullTerminated ⟨F, G, k, m⟩ (some t.addr) ⟨{t} + F, G, k', m⟩

variable {value : List UInt8} {requireNullTerminated : Bool}

theorem ParseDone.ne_overrun {s σ : Forest D} {r : Option ℕ}
    (hd : ParseDone value requireNullTerminated s r σ) :
    OsaBase.cJsonParseWithOpts (D := D) value requireNullTerminated ≠ .error .overrun := by
  cases hd with
  | null hover => exact hover
  | ends _ hparse =>
      rw [hparse]
      exact fun h ↦ by cases h

/-- On a heap with enough memory the parser shows what it may do to any forest. -/
theorem exists_parseDone (s : Forest D)
    (hover : OsaBase.cJsonParseWithOpts (D := D) value requireNullTerminated ≠ .error .overrun) :
    ∃ r σ, ParseDone value requireNullTerminated s r σ := by
  obtain ⟨F, G, k, m⟩ := s
  rcases (parses (D := D) (holds_empty fun _ ↦ true) value requireNullTerminated).or with
    ⟨-, he⟩ | ⟨h', -, -, -, he | ⟨a, -, -, ha⟩⟩ | ⟨t, rest, h', -, -, ht, he, -⟩
  · exact absurd he hover
  · exact ⟨none, ⟨F, G, k, m⟩, .null hover (.inl he)⟩
  · cases ha
  · exact ⟨some t.addr, ⟨{t} + F, G, k, m⟩, .ends ht he⟩

theorem ParseDone.stands {s σ : Forest D} {r : Option ℕ}
    (hd : ParseDone value requireNullTerminated s r σ) (hs : Stands h s) :
    ∃ r' h' σ', h.cJsonParseWithOpts value requireNullTerminated = some (r', h') ∧ Stands h' σ' ∧
      ParseDone value requireNullTerminated s (r'.map Prod.fst) σ' := by
  obtain ⟨F, G, k, m⟩ := s
  obtain ⟨hh, rfl, rfl⟩ := stands_iff.mp hs
  rcases (parses hh value requireNullTerminated).or with
    ⟨-, he⟩ | ⟨h', hnull, hg, hh', he⟩ | ⟨t, rest, h', hparse, hg, ht, he, hh'⟩
  · exact absurd he hd.ne_overrun
  · exact ⟨none, h', ⟨F, G, h'.fresh, h.memory⟩, hnull, stands_iff.mpr ⟨hh', rfl, hg.memory⟩,
      .null hd.ne_overrun he⟩
  · refine ⟨some (t.addr, rest), h', ⟨{t} + F, G, h'.fresh, h.memory⟩, hparse,
      stands_iff.mpr ⟨hh'.congr (forestBlocks_add t F).symm ?_, rfl, hg.memory⟩, .ends ht he⟩
    rw [forestTexts_add, add_assoc]

end CJsonHeap

end OsaBase
