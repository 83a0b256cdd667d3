import OsaBase.Json.Builds

/-!
# What is read from memory

The value of an item is what is seen by following its pointers. The parser leaves the value of its
text in memory, and a copy has the value of the original, which keeps it.
-/

open Json Links

namespace OsaBase

open CJsonHeap ItemTree

variable {D : Type} {I : Multiset (ℕ × CJsonNode D)} {T : Multiset (ℕ × List UInt8)}
  {h : CJsonHeap D}

namespace CJsonHeap

/-- The bytes behind a pointer that may be NULL. -/
def read (h : CJsonHeap D) : Option CharPtr → Option (Option (List UInt8))
  | none => some none
  | some p => (h.chars p).map some

mutual

/-- The item at an address, with the children that its child pointer leads to. -/
def readItem : ℕ → CJsonHeap D → ℕ → Option (CJson D)
  | 0, _, _ => none
  | fuel + 1, h, a => do
    let d ← h.data a
    let valuestring ← h.read (d.valuestring.map .block)
    let string ← h.read d.string
    let child ← readItems fuel h d.child
    some ⟨d.type, valuestring, d.valueint, d.valuedouble, string, child⟩

def readItems : ℕ → CJsonHeap D → Option ℕ → Option (List (CJson D))
  | 0, _, _ => none
  | _ + 1, _, none => some []
  | fuel + 1, h, some a => do
    let item ← readItem fuel h a
    let n ← h.items a
    let items ← readItems fuel h n.next
    some (item :: items)

end

theorem Holds.read_name (hh : h.Holds I T) {name : TreeName} (hname : name.Readable T) :
    h.read name.ptr = some name.chars := by
  cases hp : name.ptr with
  | none => exact congrArg some (TreeName.chars_of_null hp).symm
  | some p =>
      obtain ⟨s, hs⟩ := TreeName.exists_chars hp
      rw [read, hh.chars_name hname hp, hs, Option.map_some]

theorem Holds.read_value (hh : h.Holds I T) {l : ItemLabel D} (hl : l.Readable T) :
    h.read ((l.valuestring.map Prod.fst).map .block) = some (l.valuestring.map Prod.snd) := by
  cases hvalue : l.valuestring with
  | none => rfl
  | some x => exact congrArg (Option.map some) (hh.texts.get_of_mem (hl.value x hvalue))

mutual

/-- The tree that is seen from an item is what is read from it. -/
theorem Holds.readItem_seen : ∀ {t : ItemTree D} {fuel : ℕ}, h.Holds I T → Seen I T t →
    2 * t.size ≤ fuel → readItem fuel h t.addr = some t.toItem
  | .item a l children, fuel, hh, hseen, hfuel => by
    obtain ⟨⟨⟨next, prev, ⟨info, child, isReference⟩⟩, hn, hinfo, hchild⟩, hl, hseens⟩ := hseen
    obtain rfl : info = l.info := hinfo
    obtain rfl : child = firstOf children := hchild
    rw [ItemTree.size] at hfuel
    obtain ⟨fuel, rfl⟩ : ∃ k, fuel = k + 1 := ⟨fuel - 1, by omega⟩
    have hdata : h.data a = some ⟨l.info, firstOf children, isReference⟩ :=
      congrArg (Option.map Links.Node.data) (hh.items.get_of_mem hn)
    have hchildren : readItems fuel h (firstOf children) = some (toItems children) :=
      hh.readItems_seen hseens (by omega)
    exact bind_of_some hdata (bind_of_some (hh.read_value hl) (bind_of_some (hh.read_name hl.name)
      (bind_of_some hchildren rfl)))
  | .reference _ _ _, _, _, hseen, _ => hseen.elim

theorem Holds.readItems_seen : ∀ {ts : List (ItemTree D)} {fuel : ℕ}, h.Holds I T →
    SeenAll I T ts → 2 * sizeAll ts + 1 ≤ fuel → readItems fuel h (firstOf ts) = some (toItems ts)
  | [], fuel, _, _, hfuel => by
    obtain ⟨fuel, rfl⟩ : ∃ k, fuel = k + 1 := ⟨fuel - 1, by omega⟩
    rfl
  | t :: ts, fuel, hh, hseen, hfuel => by
    obtain ⟨hseen, ⟨n, hn, hnext⟩, hseens⟩ := hseen
    have hpos := t.size_pos
    rw [sizeAll] at hfuel
    obtain ⟨fuel, rfl⟩ : ∃ k, fuel = k + 1 := ⟨fuel - 1, by omega⟩
    have hitem : readItem fuel h t.addr = some t.toItem := hh.readItem_seen hseen (by omega)
    have hrest : readItems fuel h n.next = some (toItems ts) := by
      rw [hnext]
      exact hh.readItems_seen hseens (by omega)
    exact bind_of_some hitem (bind_of_some (hh.items.get_of_mem hn) (bind_of_some hrest rfl))

end

/-- A tree without references reads as its item. -/
theorem Holds.readItem_plain {t : ItemTree D} {p q : Option ℕ} {fuel : ℕ} (hh : h.Holds I T)
    (ht : t.Plain) (hI : treeBlocks p q t ⊆ I) (hT : t.texts ⊆ T) (hfuel : 2 * t.size ≤ fuel) :
    readItem fuel h t.addr = some t.toItem :=
  hh.readItem_seen (seen_plain ht hI hT) hfuel

end CJsonHeap

namespace ItemTree

mutual

theorem Copies.plain : ∀ {t t' : ItemTree D}, Copies t t' → t'.Plain
  | item _ _ _, item _ _ _, h => h.2.plain
  | item _ _ _, reference _ _ _, h => h.elim
  | reference _ _ _, _, h => h.elim

theorem CopiesAll.plain : ∀ {ts ts' : List (ItemTree D)}, CopiesAll ts ts' → PlainAll ts'
  | [], [], _ => trivial
  | _ :: _, _ :: _, h => ⟨h.1.plain, h.2.plain⟩
  | [], _ :: _, h => h.elim
  | _ :: _, [], h => h.elim

end

mutual

theorem Copies.size : ∀ {t t' : ItemTree D}, Copies t t' → t'.size = t.size
  | item _ _ _, item _ _ _, h => by rw [ItemTree.size, ItemTree.size, h.2.size]
  | item _ _ _, reference _ _ _, h => h.elim
  | reference _ _ _, _, h => h.elim

theorem CopiesAll.size : ∀ {ts ts' : List (ItemTree D)}, CopiesAll ts ts' →
    sizeAll ts' = sizeAll ts
  | [], [], _ => rfl
  | t :: ts, t' :: ts', h => by rw [sizeAll, sizeAll, h.1.size, h.2.size]
  | [], _ :: _, h => h.elim
  | _ :: _, [], h => h.elim

end

end ItemTree

namespace ItemTree

theorem root_mem_treeBlocks (p q : Option ℕ) (t : ItemTree D) :
    (t.addr, ⟨q, p, t.data⟩) ∈ treeBlocks p q t :=
  Multiset.mem_add.mpr (.inl (Multiset.mem_singleton_self _))

theorem child_mem_treeBlocks (a : ℕ) (l : ItemLabel D) (xs : List (ItemTree D)) (t : ItemTree D)
    (ys : List (ItemTree D)) :
    (t.addr, ⟨firstOf ys, last none (xs.map top), t.data⟩) ∈
      treeBlocks none none (item a l (xs ++ t :: ys)) := by
  have hchild : (t.addr, ⟨firstOf ys, last none (xs.map top), t.data⟩) ∈
      chain none ((xs ++ t :: ys).map top) none := by
    rw [List.map_append, List.map_cons, chain_append, top, chain_cons, first_top]
    exact Multiset.mem_add.mpr (.inr (Multiset.mem_add.mpr
      (.inl (Multiset.mem_singleton_self _))))
  exact Multiset.mem_add.mpr (.inr (Multiset.mem_add.mpr (.inl hchild)))

end ItemTree

namespace CJsonHeap

/-- An object as the functions fill it: a string under a name that is the caller's, and a reference
to an array. -/
theorem exists_seen_reference :
    ∃ (h : CJsonHeap ℚ) (I : Multiset (ℕ × CJsonNode ℚ)) (T : Multiset (ℕ × List UInt8))
      (t : ItemTree ℚ), h.Holds I T ∧ Seen I T t ∧ h.memory = (fun _ ↦ true) ∧ t.addr = 2 ∧
      t.size = 4 ∧ t.flagged = {[byte 's']} ∧
      t.toItem = ⟨.object, none, 0, 0, none,
        [⟨.string, some [byte 'x'], 0, 0, some [byte 's'], []⟩,
          ⟨.array, none, 0, 0, some [byte 'k'], [⟨.true, none, 0, 0, none, []⟩]⟩]⟩ := by
  obtain ⟨h₁, -, hs₁⟩ := stands_newItem_some (l := (plainLabel .array : ItemLabel ℚ))
    (stands_empty fun _ ↦ true) rfl rfl rfl
  obtain ⟨h₂, -, hs₂⟩ := stands_newItem_some (l := plainLabel .true) hs₁ rfl rfl rfl
  rw [add_left_comm] at hs₂
  obtain ⟨h₃, -, hs₃⟩ := stands_addItemToArray (C := .hole) hs₂
  obtain ⟨h₄, -, hs₄⟩ := stands_newItem_some (l := plainLabel .object) hs₃ rfl rfl rfl
  obtain ⟨-, h₅, -, hs₅⟩ := (stands_createString hs₄ [byte 'x']).resolve_left fun h ↦
    Bool.noConfusion h.1
  rw [add_left_comm] at hs₅
  obtain ⟨h₆, -, hs₆⟩ := stands_addItemToObjectCs (C := .hole) hs₅ [byte 's']
  have hswap : ∀ (t u : ItemTree ℚ) (F : Multiset (ItemTree ℚ)),
      {t} + ({u} + F) = {Ctx.hole.plug u} + ({t} + F) := fun _ _ _ ↦ add_left_comm _ _ _
  obtain ⟨h₇, -, hs₇⟩ := stands_addItemReferenceToObject (C := .hole) hs₆ (hswap _ _ _) [byte 'k']
  obtain ⟨-, hs₇⟩ := hs₇.resolve_left fun h ↦ Bool.noConfusion h.1
  let text : ItemTree ℚ :=
    .item 3 { stringLabel (fun _ ↦ true) 4 [byte 'x'] with name := .caller [byte 's'] } []
  let last : ItemTree ℚ := .item 1 (plainLabel .true) []
  let array : ItemTree ℚ := .item 0 (plainLabel .array) [last]
  let l : ItemLabel ℚ := { plainLabel .array with name := .block false 6 [byte 'k'] }
  let reference : ItemTree ℚ := .reference 5 l (some 1)
  let object : ItemTree ℚ := .item 2 (plainLabel .object) [text, reference]
  have hh : h₇.Holds (treeBlocks none none object + (treeBlocks none none array + 0))
      (object.texts + (array.texts + 0) + 0) := by
    have hh := hs₇.holds
    rw [forestBlocks_add, forestBlocks_add, forestTexts_add, forestTexts_add] at hh
    exact hh
  have hobject : treeBlocks none none object ⊆
      treeBlocks none none object + (treeBlocks none none array + 0) :=
    Multiset.subset_of_le (Multiset.le_add_right _ _)
  have htext := hobject (child_mem_treeBlocks 2 (plainLabel .object) [] text [reference])
  have href := hobject (child_mem_treeBlocks 2 (plainLabel .object) [text] reference [])
  have hlast : (1, ⟨none, none, last.data⟩) ∈
      treeBlocks none none object + (treeBlocks none none array + 0) :=
    Multiset.mem_add.mpr (.inr (Multiset.mem_add.mpr
      (.inl (child_mem_treeBlocks 0 (plainLabel .array) [] last []))))
  refine ⟨h₇, _, _, .item 2 (plainLabel .object) [text, .item 5 l [last]], hh,
    ⟨⟨_, hobject (root_mem_treeBlocks none none object), rfl, rfl⟩, ⟨?_, trivial⟩,
      ⟨⟨_, htext, rfl, rfl⟩, ⟨?_, trivial⟩, trivial⟩, ⟨_, htext, rfl⟩,
      ⟨⟨_, href, rfl, rfl⟩, ⟨?_, ?_⟩, ⟨⟨_, hlast, rfl, rfl⟩, ⟨?_, trivial⟩, trivial⟩,
        ⟨_, hlast, rfl⟩, trivial⟩,
      ⟨_, href, rfl⟩, trivial⟩, hs₇.memory, rfl, rfl, rfl, rfl⟩
  · simp [plainLabel]
  · simp [object, text, stringLabel, ItemTree.texts, textsAll, ItemLabel.value]
  · simp [l, plainLabel]
  · simp [object, reference, l, TreeName.Readable, ItemTree.texts, textsAll, TreeName.text]
  · simp [plainLabel]

/-- The tree that is seen from an item is copied, with references followed to what they refer to.
Without memory for all of it nothing is left but names with the flag `cJSON_StringIsConst`. -/
theorem cJsonDuplicate_seen {t : ItemTree D} (hh : h.Holds I T) (hseen : Seen I T t) :
    ∃ r h', h.cJsonDuplicate (some t.addr) true = some (r, h') ∧
      ((r = none ∧ Fails h h' ∧
          ∃ lost, h'.Holds I (lost + T) ∧ lost.map Prod.snd ≤ t.flagged) ∨
        ∃ t', r = some t'.addr ∧ t'.toItem = t.toItem ∧
          h'.Holds (blocks none [t'] + I) (t'.texts + T) ∧
          ∃ h'' lost, h'.cJsonDelete r = some h'' ∧ h''.Holds I (lost + T) ∧
            lost.map Prod.snd = t.flagged) := by
  obtain ⟨r, h', hloop, -, hcases⟩ := duplicates t h I T _ hh hseen (hseen.depth_le hh)
  refine ⟨r, h', hloop, ?_⟩
  rcases hcases with ⟨rfl, hfail, G, hh', hG⟩ | ⟨t', rfl, hcopy, hh'⟩
  · exact .inl ⟨rfl, hfail, G, hh', hG⟩
  · obtain ⟨h'', hdel, hh'', hk⟩ := cJsonDelete_holds hh'
    exact .inr ⟨t', rfl, hcopy.toItem, hh', h'', t'.leaky, hdel, hh'', hcopy.leaky⟩

theorem cJsonDuplicate_seen_reference :
    ∃ (h h' h'' : CJsonHeap ℚ) (I : Multiset (ℕ × CJsonNode ℚ)) (T lost : Multiset (ℕ × List UInt8))
      (t : ItemTree ℚ), h.cJsonDuplicate (some 2) true = some (some t.addr, h') ∧
      t.toItem = ⟨.object, none, 0, 0, none,
        [⟨.string, some [byte 'x'], 0, 0, some [byte 's'], []⟩,
          ⟨.array, none, 0, 0, some [byte 'k'], [⟨.true, none, 0, 0, none, []⟩]⟩]⟩ ∧
      h'.Holds (blocks none [t] + I) (t.texts + T) ∧
      h'.cJsonDelete (some t.addr) = some h'' ∧ h''.Holds I (lost + T) ∧
      lost.map Prod.snd = {[byte 's']} := by
  obtain ⟨h, I, T, t, hh, hseen, hmemory, haddr, -, hflagged, hitem⟩ := exists_seen_reference
  obtain ⟨r, h', hdup, hcases⟩ := cJsonDuplicate_seen hh hseen
  rw [haddr] at hdup
  rcases hcases with ⟨-, ⟨a, -, -, ha⟩, -⟩ | ⟨t', rfl, hcopy, hh', h'', lost, hdelete, hh'', hlost⟩
  · rw [hmemory] at ha
    cases ha
  · exact ⟨h, h', h'', I, T, lost, t', hdup, hcopy.trans hitem, hh', hdelete, hh'',
      hlost.trans hflagged⟩

/-- A copy reads as the original, and the original still reads as before. -/
theorem cJsonDuplicate_reads {t : ItemTree D} (hh : h.Holds I T) (hseen : Seen I T t) :
    readItem (2 * t.size) h t.addr = some t.toItem ∧
      ∃ r h', h.cJsonDuplicate (some t.addr) true = some (r, h') ∧
        readItem (2 * t.size) h' t.addr = some t.toItem ∧ (r = none → Fails h h') ∧
        ∀ b, r = some b → readItem (2 * t.size) h' b = some t.toItem := by
  refine ⟨hh.readItem_seen hseen le_rfl, ?_⟩
  obtain ⟨r, h', hloop, -, hcases⟩ := duplicates t h I T _ hh hseen (hseen.depth_le hh)
  rcases hcases with ⟨rfl, hfail, G, hh', -⟩ | ⟨t', rfl, hcopy, hh'⟩
  · have hseen' : Seen I (G + T) t :=
      hseen.mono (fun _ hx ↦ hx) (Multiset.subset_of_le (Multiset.le_add_left _ _))
    exact ⟨none, h', hloop, hh'.readItem_seen hseen' le_rfl, fun _ ↦ hfail, fun b hb ↦ by cases hb⟩
  · have hseen' : Seen (blocks none [t'] + I) (t'.texts + T) t :=
      hseen.mono (Multiset.subset_of_le (Multiset.le_add_left _ _))
        (Multiset.subset_of_le (Multiset.le_add_left _ _))
    refine ⟨some t'.addr, h', hloop, hh'.readItem_seen hseen' le_rfl,
      fun hr ↦ absurd hr (Option.some_ne_none _), fun b hb ↦ ?_⟩
    obtain rfl : t'.addr = b := Option.some.inj hb
    rw [← hcopy.toItem]
    rw [blocks_singleton] at hh'
    exact hh'.readItem_plain (p := none) (q := none) hcopy.plain
      (Multiset.subset_of_le (Multiset.le_add_right _ _))
      (Multiset.subset_of_le (Multiset.le_add_right _ _)) (by rw [hcopy.size])

theorem cJsonDuplicate_reads_reference :
    ∃ (h h' : CJsonHeap ℚ) (b : ℕ) (item : CJson ℚ),
      item = ⟨.object, none, 0, 0, none,
        [⟨.string, some [byte 'x'], 0, 0, some [byte 's'], []⟩,
          ⟨.array, none, 0, 0, some [byte 'k'], [⟨.true, none, 0, 0, none, []⟩]⟩]⟩ ∧
      h.cJsonDuplicate (some 2) true = some (some b, h') ∧ readItem 8 h 2 = some item ∧
      readItem 8 h' 2 = some item ∧ readItem 8 h' b = some item := by
  obtain ⟨h, I, T, t, hh, hseen, hmemory, haddr, hsize, -, hitem⟩ := exists_seen_reference
  obtain ⟨hread, r, h', hdup, hread', hfails, hcopy⟩ := cJsonDuplicate_reads hh hseen
  rw [hsize, haddr] at hread hread'
  rw [haddr] at hdup
  cases r with
  | none =>
      obtain ⟨a, -, -, ha⟩ := hfails rfl
      rw [hmemory] at ha
      cases ha
  | some b =>
      have hcopied := hcopy b rfl
      rw [hsize] at hcopied
      exact ⟨h, h', b, t.toItem, hitem, hdup, hread, hread', hcopied⟩

section CDouble

variable [CDouble D]

/-- With memory for the items and the strings, what is read from the item that the parser returns is
what the parser makes of the text. -/
theorem cJsonParseWithOpts_reads (hh : h.Holds I T) (hmemory : ∀ a, h.memory a = true)
    {value rest : List UInt8} {requireNullTerminated : Bool} {item : CJson D}
    (hparse : OsaBase.cJsonParseWithOpts value requireNullTerminated = .ok (item, rest)) :
    ∃ a h' fuel, h.cJsonParseWithOpts value requireNullTerminated = some (some (a, rest), h') ∧
      readItem fuel h' a = some item := by
  rcases (parses hh value requireNullTerminated).or with
    ⟨-, he⟩ | ⟨h', -, -, -, he | ⟨a, -, -, ha⟩⟩ | ⟨t, rest', h', hbuild, -, ht, he, hh'⟩
  · rw [hparse] at he
    cases he
  · obtain ⟨ep, he⟩ := he
    rw [hparse] at he
    cases he
  · rw [hmemory] at ha
    cases ha
  · rw [hparse] at he
    cases he
    have hread : readItem (2 * t.size) h' t.addr = some t.toItem :=
      hh'.readItem_plain (p := none) (q := none) ht.plain
        (Multiset.subset_of_le (Multiset.le_add_right _ _))
        (Multiset.subset_of_le (Multiset.le_add_right _ _)) le_rfl
    exact ⟨t.addr, h', 2 * t.size, hbuild, hread⟩

theorem cJsonParseWithOpts_reads_array :
    ∃ a h' fuel, (empty fun _ ↦ true : CJsonHeap ℚ).cJsonParseWithOpts
        [byte '[', byte 't', byte 'r', byte 'u', byte 'e', byte ']'] true =
          some (some (a, []), h') ∧
      readItem fuel h' a = some ⟨.array, none, 0, 0, none, [⟨.true, none, 1, 0, none, []⟩]⟩ :=
  cJsonParseWithOpts_reads (holds_empty _) (fun _ ↦ rfl) rfl

end CDouble

end CJsonHeap

end OsaBase
