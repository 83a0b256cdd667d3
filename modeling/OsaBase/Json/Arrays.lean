import OsaBase.Json.Exact
import OsaBase.Json.Steps

/-!
# The functions that create arrays of items

`cJSON_CreateIntArray` and its siblings do not look at whether an item was created before they link
it. With memory for all items the array has them all; without, the code follows a NULL pointer,
unless there is only one item.
-/

open Blocks Json Links

namespace OsaBase

open CJsonHeap ItemTree

variable {D α : Type} {h h' : CJsonHeap D} {F : Multiset (ItemTree D)}
  {G : Multiset (ℕ × List UInt8)} {m : ℕ → Bool} {k a w : ℕ} {l : ItemLabel D}
  {create : CJsonHeap D → α → Option (Option ℕ × CJsonHeap D)}
  {leaf : (ℕ → Bool) → ℕ → α → ItemTree D} {x : α} {xs : List α}

/-- An item of an array is created: without memory there is none, and otherwise it is `leaf`, with
`w` calls of `malloc`. -/
structure Creates (create : CJsonHeap D → α → Option (Option ℕ × CJsonHeap D))
    (leaf : (ℕ → Bool) → ℕ → α → ItemTree D) (w : ℕ) : Prop where
  addr : ∀ m k x, (leaf m k x).addr = k
  stands : ∀ h F G k m x, Stands h ⟨F, G, k, m⟩ →
    (m k = false ∧ ∃ h', create h x = some (none, h') ∧ Stands h' ⟨F, G, k + 1, m⟩) ∨
      (m k = true ∧ ∃ h', create h x = some (some k, h') ∧
        Stands h' ⟨{leaf m k x} + F, G, k + w, m⟩)

/-- The items of an array, if the first one is at the address `k`. -/
def leaves (leaf : (ℕ → Bool) → ℕ → α → ItemTree D) (w : ℕ) (m : ℕ → Bool) :
    ℕ → List α → List (ItemTree D)
  | _, [] => []
  | k, x :: xs => leaf m k x :: leaves leaf w m (k + w) xs

/-- There is memory for each of `n` items. -/
def RoomFor (m : ℕ → Bool) (w k n : ℕ) : Prop := ∀ i < n, m (k + w * i) = true

instance (m : ℕ → Bool) (w k n : ℕ) : Decidable (RoomFor m w k n) :=
  inferInstanceAs (Decidable (∀ i < n, m (k + w * i) = true))

theorem roomFor_succ {n : ℕ} : RoomFor m w k (n + 1) ↔ m k = true ∧ RoomFor m w (k + w) n := by
  constructor
  · intro hroom
    refine ⟨by simpa using hroom 0 n.succ_pos, fun i hi ↦ ?_⟩
    have := hroom (i + 1) (Nat.succ_lt_succ hi)
    rwa [Nat.mul_succ, Nat.add_comm (w * i), ← Nat.add_assoc] at this
  · rintro ⟨hk, hroom⟩ i hi
    cases i with
    | zero => exact hk
    | succ i =>
        rw [Nat.mul_succ, Nat.add_comm (w * i), ← Nat.add_assoc]
        exact hroom i (Nat.lt_of_succ_lt_succ hi)

theorem roomFor_nil : RoomFor m w k 0 := fun _ hi ↦ absurd hi (Nat.not_lt_zero _)

/-- An item is hung behind the others, the last of which is known. -/
theorem stands_suffix {done : List (ItemTree D)} {t : ItemTree D}
    (hs : Stands h ⟨{t} + ({.item a l done} + F), G, k, m⟩) :
    ∃ h', (if (last none (done.map top)).isSome then
          h.suffixObject (last none (done.map top)) (some t.addr)
        else h.write a fun d ↦ { d with child := some t.addr }) = some h' ∧
      Stands h' ⟨{.item a l (done ++ [t])} + F, G, k, m⟩ := by
  obtain ⟨hh, rfl, rfl⟩ := stands_iff.mp hs
  rw [forestBlocks_add, forestBlocks_add, forestTexts_add, forestTexts_add] at hh
  obtain ⟨h', happend, hh', hk⟩ := hang_holds hh
  refine ⟨h', happend, stands_iff.mpr ⟨hh'.congr ?_ ?_, hk.fresh, hk.memory⟩⟩
  · rw [forestBlocks_add]
  · rw [forestTexts_add, ItemTree.texts, ItemTree.texts, textsAll_append, textsAll, textsAll]
    abel

/-- No item is hung behind the others. -/
theorem suffixObject_none (h : CJsonHeap D) (prev : Option ℕ) :
    h.suffixObject prev none = none := by
  cases prev with
  | none => rfl
  | some p =>
      rw [suffixObject, Option.bind_eq_bind, Option.bind_some]
      cases h.setNext p none <;> rfl

theorem fillArray_null (h : CJsonHeap D) (x : α) (xs : List α) :
    fillArray create a h false none (x :: xs) = none := by
  rw [fillArray]
  cases create h x <;> rfl

/-- Behind the first item, with memory for the others. -/
theorem stands_fillArray (hc : Creates create leaf w) {done : List (ItemTree D)} {p : ℕ}
    (hp : last none (done.map top) = some p) (hroom : RoomFor m w k xs.length)
    (hs : Stands h ⟨{.item a l done} + F, G, k, m⟩) :
    ∃ h', fillArray create a h false (some p) xs = some h' ∧
      Stands h' ⟨{.item a l (done ++ leaves leaf w m k xs)} + F, G, k + w * xs.length, m⟩ := by
  induction xs generalizing h done p k with
  | nil =>
      rw [leaves, List.append_nil]
      exact ⟨h, rfl, hs⟩
  | cons x xs ih =>
      obtain ⟨hk, hroom⟩ := roomFor_succ.mp hroom
      rcases hc.stands h _ G k m x hs with ⟨hm, -⟩ | ⟨-, h₁, hcreate, hs₁⟩
      · exact absurd (hm.symm.trans hk) Bool.false_ne_true
      · obtain ⟨h₂, hsuffix, hs₂⟩ := stands_suffix hs₁
        rw [hp, hc.addr] at hsuffix
        have hlast : last none ((done ++ [leaf m k x]).map top) = some k := by
          rw [List.map_append, last_append, List.map_singleton, top, hc.addr]
          rfl
        obtain ⟨h₃, hfill, hs₃⟩ := ih hlast hroom hs₂
        refine ⟨h₃, bind_of_some hcreate (bind_of_some hsuffix hfill), ?_⟩
        rwa [leaves, List.length_cons, Nat.mul_succ, Nat.add_comm (w * xs.length), ← Nat.add_assoc,
          List.append_cons]

/-- Behind the first item, without memory for one of the others. -/
theorem fillArray_none (hc : Creates create leaf w) {done : List (ItemTree D)} {p : ℕ}
    (hp : last none (done.map top) = some p) (hroom : ¬RoomFor m w k xs.length)
    (hs : Stands h ⟨{.item a l done} + F, G, k, m⟩) :
    fillArray create a h false (some p) xs = none := by
  induction xs generalizing h done p k with
  | nil => exact absurd roomFor_nil hroom
  | cons x xs ih =>
      rcases hc.stands h _ G k m x hs with ⟨-, h₁, hcreate, hs₁⟩ | ⟨hk, h₁, hcreate, hs₁⟩
      · refine bind_of_some hcreate ?_
        rw [if_neg Bool.false_ne_true, suffixObject_none]
        rfl
      · obtain ⟨h₂, hsuffix, hs₂⟩ := stands_suffix hs₁
        rw [hp, hc.addr] at hsuffix
        have hlast : last none ((done ++ [leaf m k x]).map top) = some k := by
          rw [List.map_append, last_append, List.map_singleton, top, hc.addr]
          rfl
        have hrest : ¬RoomFor m w (k + w) xs.length := fun hrest ↦
          hroom (roomFor_succ.mpr ⟨hk, hrest⟩)
        exact bind_of_some hcreate (bind_of_some hsuffix (ih hlast hrest hs₂))

section CDouble

variable [CDouble D]

theorem createArray_eq {h₁ : CJsonHeap D} (hnew : h.cJsonCreateArray = (some k, h₁))
    (xs : List α) : createArray create h xs =
      (fillArray create k h₁ true none xs).map fun h ↦ (some k, h) :=
  (congrArg (orNull · _) hnew).trans Option.map_eq_bind.symm

/-- Without memory for the array nothing is created. -/
theorem stands_createArray_null (hs : Stands h ⟨F, G, k, m⟩) (hk : m k = false) (xs : List α) :
    ∃ h', createArray create h xs = some (none, h') ∧ Stands h' ⟨F, G, k + 1, m⟩ := by
  obtain ⟨h₁, hnew, hs₁⟩ := stands_newItem_none hs hk ⟨(plainLabel .array).info, none, false⟩
  exact ⟨h₁, congrArg (orNull · _) hnew, hs₁⟩

theorem stands_cJsonCreateArray (hs : Stands h ⟨F, G, k, m⟩) (hk : m k = true) :
    ∃ h', h.cJsonCreateArray = (some k, h') ∧
      Stands h' ⟨{.item k (plainLabel .array) []} + F, G, k + 1, m⟩ :=
  stands_newItem_some (l := plainLabel .array) hs hk rfl rfl

/-- The array, if there is memory for all of it. -/
theorem stands_createArray (hc : Creates create leaf w) (hs : Stands h ⟨F, G, k, m⟩)
    (hk : m k = true) (hroom : RoomFor m w (k + 1) xs.length) :
    ∃ h', createArray create h xs = some (some k, h') ∧
      Stands h' ⟨{.item k (plainLabel .array) (leaves leaf w m (k + 1) xs)} + F, G,
        k + 1 + w * xs.length, m⟩ := by
  obtain ⟨h₁, hnew, hs₁⟩ := stands_cJsonCreateArray hs hk
  rw [createArray_eq hnew]
  cases xs with
  | nil => exact ⟨h₁, rfl, hs₁⟩
  | cons x xs =>
      obtain ⟨hx, hroom⟩ := roomFor_succ.mp hroom
      rcases hc.stands h₁ _ G (k + 1) m x hs₁ with ⟨hm, -⟩ | ⟨-, h₂, hcreate, hs₂⟩
      · exact absurd (hm.symm.trans hx) Bool.false_ne_true
      · obtain ⟨h₃, hsuffix, hs₃⟩ := stands_suffix hs₂
        rw [List.map_nil, last_nil, hc.addr] at hsuffix
        have hlast : last none (([] ++ [leaf m (k + 1) x]).map top) = some (k + 1) :=
          congrArg some (hc.addr _ _ _)
        obtain ⟨h₄, hfill, hs₄⟩ := stands_fillArray hc hlast hroom hs₃
        have hfill' : fillArray create k h₁ true none (x :: xs) = some h₄ :=
          bind_of_some hcreate (bind_of_some hsuffix hfill)
        refine ⟨h₄, congrArg (Option.map _) hfill', ?_⟩
        rwa [leaves, List.length_cons, Nat.mul_succ, Nat.add_comm (w * xs.length),
          ← Nat.add_assoc]

omit [CDouble D] in
/-- NULL is hung below the array in place of the first item. -/
theorem stands_fillArray_first (hs : Stands h ⟨{.item a l []} + F, G, k, m⟩)
    (hc : Creates create leaf w) (hk : m k = false) (xs : List α) :
    ∃ h', fillArray create a h true none (x :: xs) = fillArray create a h' false none xs ∧
      Stands h' ⟨{.item a l []} + F, G, k + 1, m⟩ := by
  rcases hc.stands h _ G k m x hs with ⟨-, h₁, hcreate, hs₁⟩ | ⟨hm, -⟩
  · obtain ⟨hh₁, hfresh, hmemory⟩ := stands_iff.mp hs₁
    have hblocks := hh₁
    rw [forestBlocks_add, ← blocks_singleton, blocks_leaf] at hblocks
    obtain ⟨h₂, hwrite, hh₂, hkeeps⟩ := hblocks.write fun d ↦ { d with child := none }
    refine ⟨h₂, bind_of_some hcreate (bind_of_some hwrite rfl), stands_iff.mpr
      ⟨hh₂.congr ?_ rfl, hkeeps.fresh.trans hfresh, hkeeps.memory.trans hmemory⟩⟩
    rw [forestBlocks_add, ← blocks_singleton, blocks_leaf]
  · exact absurd (hk.symm.trans hm) Bool.false_ne_true

/-- With one item, and no memory for it, the array is empty. -/
theorem stands_createArray_single (hc : Creates create leaf w) (hs : Stands h ⟨F, G, k, m⟩)
    (hk : m k = true) (hx : m (k + 1) = false) :
    ∃ h', createArray create h [x] = some (some k, h') ∧
      Stands h' ⟨{.item k (plainLabel .array) []} + F, G, k + 2, m⟩ := by
  obtain ⟨h₁, hnew, hs₁⟩ := stands_cJsonCreateArray hs hk
  obtain ⟨h₂, hfill, hs₂⟩ := stands_fillArray_first (x := x) hs₁ hc hx []
  rw [createArray_eq hnew, hfill]
  exact ⟨h₂, rfl, hs₂⟩

/-- With more items, and no memory for one of them, the code follows NULL. -/
theorem createArray_none (hc : Creates create leaf w) (hs : Stands h ⟨F, G, k, m⟩)
    (hk : m k = true) (hlen : 2 ≤ xs.length) (hroom : ¬RoomFor m w (k + 1) xs.length) :
    createArray create h xs = none := by
  obtain ⟨h₁, hnew, hs₁⟩ := stands_cJsonCreateArray hs hk
  rw [createArray_eq hnew]
  obtain ⟨x, y, xs, rfl⟩ : ∃ x y ys, xs = x :: y :: ys := by
    cases xs with
    | nil => cases hlen
    | cons x xs =>
        cases xs with
        | nil => exact absurd hlen (by simp)
        | cons y ys => exact ⟨x, y, ys, rfl⟩
  rcases hc.stands h₁ _ G (k + 1) m x hs₁ with ⟨hm, -⟩ | ⟨hx, h₂, hcreate, hs₂⟩
  · obtain ⟨h₂, hfill, -⟩ := stands_fillArray_first (x := x) hs₁ hc hm (y :: xs)
    rw [hfill, fillArray_null, Option.map_none]
  · obtain ⟨h₃, hsuffix, hs₃⟩ := stands_suffix hs₂
    rw [List.map_nil, last_nil, hc.addr] at hsuffix
    have hlast : last none (([] ++ [leaf m (k + 1) x]).map top) = some (k + 1) :=
      congrArg some (hc.addr _ _ _)
    have hrest : ¬RoomFor m w (k + 1 + w) (y :: xs).length := fun hrest ↦
      hroom (roomFor_succ.mpr ⟨hx, hrest⟩)
    have hfill := fillArray_none hc hlast hrest hs₃
    have hfill' : fillArray create k h₁ true none (x :: y :: xs) = none :=
      bind_of_some hcreate (bind_of_some hsuffix hfill)
    rw [hfill', Option.map_none]

/-! ## The functions -/

open CDouble

/-- What a function that creates an array may do without following NULL. -/
inductive ArrayDone (leaf : (ℕ → Bool) → ℕ → α → ItemTree D) (w : ℕ) (xs : List α) :
    Forest D → Option ℕ → Forest D → Prop
  | null {F : Multiset (ItemTree D)} {G : Multiset (ℕ × List UInt8)} {k : ℕ} {m : ℕ → Bool}
      (hk : m k = false) : ArrayDone leaf w xs ⟨F, G, k, m⟩ none ⟨F, G, k + 1, m⟩
  | all {F : Multiset (ItemTree D)} {G : Multiset (ℕ × List UInt8)} {k : ℕ} {m : ℕ → Bool}
      (hk : m k = true) (hroom : RoomFor m w (k + 1) xs.length) :
      ArrayDone leaf w xs ⟨F, G, k, m⟩ (some k)
        ⟨{.item k (plainLabel .array) (leaves leaf w m (k + 1) xs)} + F, G,
          k + 1 + w * xs.length, m⟩
  | single {F : Multiset (ItemTree D)} {G : Multiset (ℕ × List UInt8)} {k : ℕ} {m : ℕ → Bool}
      (hk : m k = true) (hx : m (k + 1) = false) (hlen : xs.length = 1) :
      ArrayDone leaf w xs ⟨F, G, k, m⟩ (some k)
        ⟨{.item k (plainLabel .array) []} + F, G, k + 2, m⟩

theorem ArrayDone.stands (hc : Creates create leaf w) {s σ : Forest D} {r : Option ℕ}
    (hd : ArrayDone leaf w xs s r σ) (hs : Stands h s) :
    ∃ h', createArray create h xs = some (r, h') ∧ Stands h' σ := by
  cases hd with
  | null hk => exact stands_createArray_null hs hk xs
  | all hk hroom => exact stands_createArray hc hs hk hroom
  | single hk hx hlen =>
      obtain ⟨x, rfl⟩ := List.length_eq_one_iff.mp hlen
      exact stands_createArray_single hc hs hk hx

theorem ArrayDone.not_stuck {r : Option ℕ} {σ : Forest D}
    (hd : ArrayDone leaf w xs ⟨F, G, k, m⟩ r σ) :
    ¬(m k = true ∧ 2 ≤ xs.length ∧ ¬RoomFor m w (k + 1) xs.length) := by
  rintro ⟨hk, hlen, hroom⟩
  cases hd with
  | null hnull => exact Bool.false_ne_true (hnull.symm.trans hk)
  | all _ hall => exact hroom hall
  | single _ _ hone => omega

theorem arrayDone_or (leaf : (ℕ → Bool) → ℕ → α → ItemTree D) (w : ℕ) (xs : List α)
    (F : Multiset (ItemTree D)) (G : Multiset (ℕ × List UInt8)) (k : ℕ) (m : ℕ → Bool) :
    (∃ r σ, ArrayDone leaf w xs ⟨F, G, k, m⟩ r σ) ∨
      (m k = true ∧ 2 ≤ xs.length ∧ ¬RoomFor m w (k + 1) xs.length) := by
  cases hk : m k with
  | false => exact .inl ⟨_, _, .null hk⟩
  | true =>
      by_cases hroom : RoomFor m w (k + 1) xs.length
      · exact .inl ⟨_, _, .all hk hroom⟩
      · by_cases hlen : 2 ≤ xs.length
        · exact .inr ⟨rfl, hlen, hroom⟩
        · have hone : xs.length = 1 := by
            have : xs.length ≠ 0 := fun h ↦ hroom (by rw [h]; exact roomFor_nil)
            omega
          refine .inl ⟨_, _, .single hk ?_ hone⟩
          rw [hone, roomFor_succ, not_and] at hroom
          exact Bool.eq_false_iff.mpr fun hx ↦ hroom hx roomFor_nil

/-- When a function that creates an array follows NULL, and what it does otherwise. -/
theorem createArray_done (hc : Creates create leaf w) (hs : Stands h ⟨F, G, k, m⟩)
    (xs : List α) :
    (createArray create h xs = none ↔
        m k = true ∧ 2 ≤ xs.length ∧ ¬RoomFor m w (k + 1) xs.length) ∧
      ∀ r h', createArray create h xs = some (r, h') →
        ∃ σ, ArrayDone leaf w xs ⟨F, G, k, m⟩ r σ ∧ Stands h' σ := by
  rcases arrayDone_or leaf w xs F G k m with ⟨r, σ, hd⟩ | ⟨hk, hlen, hroom⟩
  · obtain ⟨h₁, hcreate, hs₁⟩ := hd.stands hc hs
    rw [hcreate]
    refine ⟨iff_of_false (Option.some_ne_none _) hd.not_stuck, fun r' h' hr ↦ ?_⟩
    cases hr
    exact ⟨σ, hd, hs₁⟩
  · rw [createArray_none hc hs hk hlen hroom]
    refine ⟨iff_of_true rfl ⟨hk, hlen, hroom⟩, fun r h' hr ↦ ?_⟩
    cases hr

/-- An item of an array of numbers. -/
def numberLeaf (value : α → D) (_ : ℕ → Bool) (k : ℕ) (x : α) : ItemTree D :=
  .item k (numberLabel (value x)) []

def stringLeaf (m : ℕ → Bool) (k : ℕ) (s : List UInt8) : ItemTree D :=
  .item k (stringLabel m (k + 1) s) []

theorem creates_number (value : α → D) :
    Creates (fun h x ↦ some (h.cJsonCreateNumber (value x))) (numberLeaf value) 1 where
  addr := fun _ _ _ ↦ rfl
  stands := by
    intro h F G k m x hs
    rcases stands_newItem hs (l := numberLabel (value x)) rfl rfl with
      ⟨hm, h', hnew, hs'⟩ | ⟨hm, h', hnew, hs'⟩
    · exact .inl ⟨hm, h', congrArg some hnew, hs'⟩
    · exact .inr ⟨hm, h', congrArg some hnew, hs'⟩

theorem creates_string :
    Creates (fun (h : CJsonHeap D) s ↦ h.cJsonCreateString (.caller s)) stringLeaf 2 where
  addr := fun _ _ _ ↦ rfl
  stands := fun _ _ _ _ _ s hs ↦ stands_createString hs s

omit [CDouble D] in
theorem fillArray_map {β : Type} (f : β → α) (a : ℕ) (h : CJsonHeap D) (first : Bool)
    (p : Option ℕ) (ys : List β) :
    fillArray create a h first p (ys.map f) =
      fillArray (fun h y ↦ create h (f y)) a h first p ys := by
  induction ys generalizing h first p with
  | nil => rfl
  | cons y ys ih =>
      rw [List.map_cons, fillArray, fillArray]
      simp only [ih]

theorem cJsonCreateStringArray_eq (h : CJsonHeap D) (ss : List (List UInt8)) :
    h.cJsonCreateStringArray (ss.map .caller) =
      createArray (fun h s ↦ h.cJsonCreateString (.caller s)) h ss := by
  rw [cJsonCreateStringArray, createArray, createArray]
  simp only [fillArray_map]

theorem cJsonCreateIntArray_done (hs : Stands h ⟨F, G, k, m⟩) (numbers : List Int32) :
    (h.cJsonCreateIntArray numbers = none ↔
        m k = true ∧ 2 ≤ numbers.length ∧ ¬RoomFor m 1 (k + 1) numbers.length) ∧
      ∀ r h', h.cJsonCreateIntArray numbers = some (r, h') →
        ∃ σ, ArrayDone (numberLeaf fun i : Int32 ↦ (ofInt i.toInt : D)) 1 numbers ⟨F, G, k, m⟩ r σ ∧
          Stands h' σ :=
  createArray_done (creates_number _) hs numbers

theorem cJsonCreateIntArray_done_two :
    (empty fun k ↦ k = 0 : CJsonHeap ℚ).cJsonCreateIntArray [1, 2] = none :=
  (cJsonCreateIntArray_done (stands_empty _) [1, 2]).1.mpr ⟨rfl, le_rfl, by decide⟩

theorem cJsonCreateStringArray_done (hs : Stands h ⟨F, G, k, m⟩) (strings : List (List UInt8)) :
    (h.cJsonCreateStringArray (strings.map .caller) = none ↔
        m k = true ∧ 2 ≤ strings.length ∧ ¬RoomFor m 2 (k + 1) strings.length) ∧
      ∀ r h', h.cJsonCreateStringArray (strings.map .caller) = some (r, h') →
        ∃ σ, ArrayDone stringLeaf 2 strings ⟨F, G, k, m⟩ r σ ∧ Stands h' σ := by
  rw [cJsonCreateStringArray_eq]
  exact createArray_done creates_string hs strings

theorem cJsonCreateStringArray_done_two :
    (empty fun k ↦ k < 4 : CJsonHeap ℚ).cJsonCreateStringArray [.caller [], .caller []] ≠ none :=
  fun hnull ↦ absurd ((cJsonCreateStringArray_done (stands_empty _) [[], []]).1.mp hnull).2.2
    (by decide)

end CDouble

end OsaBase
