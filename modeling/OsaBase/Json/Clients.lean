import OsaBase.Json.Calls
import OsaBase.Json.Exact

/-!
# Runs of programs that use `cJSON.c`

A program makes a call, sees what is returned, and goes on. One that obeys the rules whatever the
calls return never gets stuck, and at its end the heap has exactly the blocks of its trees and the
strings that no call frees. Two functions lose strings; a program that calls neither of them can
give all its memory back.
-/

open Blocks Json

namespace OsaBase

open CJsonHeap ItemTree

variable {D : Type} [CDouble D]

inductive Client (D : Type)
  | done
  | call (c : Call D) (next : Option ℕ → Client D)

namespace Client

def run : Client D → CJsonHeap D → Option (CJsonHeap D)
  | done, h => some h
  | call c next, h => do
    let r ← c.run h
    (next r.1).run r.2

/-- Each call is allowed, whatever the calls before it have returned. -/
def Obeys : Client D → Forest D → Prop
  | done, _ => True
  | call c next, s =>
    (∃ r σ, Does c s r σ) ∧ ∀ r σ, Does c s r σ → (next r).Obeys σ

inductive Leads : Client D → Forest D → Forest D → Prop
  | done {s : Forest D} : Leads done s s
  | call {c : Call D} {next : Option ℕ → Client D} {s σ τ : Forest D} {r : Option ℕ}
      (hd : Does c s r σ) (hl : Leads (next r) σ τ) : Leads (call c next) s τ

/-- The calls satisfy `P`, whatever the calls before them have returned. -/
def Calls (P : Call D → Prop) : Client D → Prop
  | done => True
  | call c next => P c ∧ ∀ r, (next r).Calls P

end Client

/-- A program that obeys the rules does not get stuck. -/
theorem Client.Obeys.stands {p : Client D} {h : CJsonHeap D} {s : Forest D} (hp : p.Obeys s)
    (hs : Stands h s) : ∃ h' σ, p.run h = some h' ∧ p.Leads s σ ∧ Stands h' σ := by
  induction p generalizing h s with
  | done => exact ⟨h, s, rfl, .done, hs⟩
  | call c next ih =>
      obtain ⟨⟨r₀, σ₀, hd₀⟩, hnext⟩ := hp
      obtain ⟨r, h₁, s₁, hrun, hs₁, hd⟩ := hd₀.stands hs
      obtain ⟨h₂, s₂, hrun₂, hleads, hs₂⟩ := ih r (hnext r s₁ hd) hs₁
      exact ⟨h₂, s₂, bind_of_some hrun hrun₂, .call hd hleads, hs₂⟩

/-! ## Flags of names -/

namespace ItemTree

omit [CDouble D]

mutual

/-- The flags `cJSON_StringIsConst` in a tree. -/
def flags : ItemTree D → Multiset Bool
  | item _ l children => {l.name.isConst} + flagsAll children
  | reference _ l _ => {l.name.isConst}

def flagsAll : List (ItemTree D) → Multiset Bool
  | [] => 0
  | t :: ts => flags t + flagsAll ts

end

theorem flagsAll_append (ts us : List (ItemTree D)) :
    flagsAll (ts ++ us) = flagsAll ts + flagsAll us := by
  induction ts with
  | nil => rw [List.nil_append, flagsAll, zero_add]
  | cons t ts ih => rw [List.cons_append, flagsAll, flagsAll, ih, add_assoc]

mutual

/-- A tree without flags is freed with all its strings. -/
theorem leaky_eq_zero : ∀ {t : ItemTree D}, true ∉ t.flags → t.leaky = 0
  | item _ l children, h => by
    rw [flags, Multiset.mem_add, Multiset.mem_singleton, not_or] at h
    rw [leaky, TreeName.leaky_eq_zero (Bool.eq_false_iff.mpr (Ne.symm h.1)),
      leakyAll_eq_zero h.2, zero_add]
  | reference _ l _, h => by
    rw [flags, Multiset.mem_singleton] at h
    rw [leaky, TreeName.leaky_eq_zero (Bool.eq_false_iff.mpr (Ne.symm h))]

theorem leakyAll_eq_zero : ∀ {ts : List (ItemTree D)}, true ∉ flagsAll ts → leakyAll ts = 0
  | [], _ => rfl
  | t :: ts, h => by
    rw [flagsAll, Multiset.mem_add, not_or] at h
    rw [leakyAll, leaky_eq_zero h.1, leakyAll_eq_zero h.2, zero_add]

end

mutual

theorem flagged_eq_zero : ∀ {t : ItemTree D}, true ∉ t.flags → t.flagged = 0
  | item _ l children, h => by
    rw [flags, Multiset.mem_add, Multiset.mem_singleton, not_or] at h
    rw [flagged, TreeName.flagged, if_neg (Ne.symm h.1), flaggedAll_eq_zero h.2, zero_add]
  | reference _ l _, h => by
    rw [flags, Multiset.mem_singleton] at h
    rw [flagged, TreeName.flagged, if_neg (Ne.symm h)]

theorem flaggedAll_eq_zero : ∀ {ts : List (ItemTree D)}, true ∉ flagsAll ts → flaggedAll ts = 0
  | [], _ => rfl
  | t :: ts, h => by
    rw [flagsAll, Multiset.mem_add, not_or] at h
    rw [flaggedAll, flagged_eq_zero h.1, flaggedAll_eq_zero h.2, zero_add]

end

/-- A string for a name does not change the flag. -/
theorem flags_rename (t : ItemTree D) {name : TreeName} (h : name.isConst = t.label.name.isConst) :
    (t.rename name).flags = t.flags := by
  cases t <;>
    rw [rename, flags, h] <;>
    rfl

mutual

theorem Copies.flags : ∀ {t t' : ItemTree D}, Copies t t' → t'.flags = t.flags
  | item _ l children, item _ l' children', h => by
    rw [ItemTree.flags, ItemTree.flags, h.1.isConst, h.2.flags]
  | item _ _ _, reference _ _ _, h => h.elim
  | reference _ _ _, _, h => h.elim

theorem CopiesAll.flags : ∀ {ts ts' : List (ItemTree D)}, CopiesAll ts ts' →
    flagsAll ts' = flagsAll ts
  | [], [], _ => rfl
  | t :: ts, t' :: ts', h => by rw [flagsAll, flagsAll, h.1.flags, h.2.flags]
  | [], _ :: _, h => h.elim
  | _ :: _, [], h => h.elim

end

mutual

theorem Own.notMem_flags : ∀ {t : ItemTree D}, Own t → true ∉ t.flags
  | item _ l children, h => by
    rw [flags, Multiset.mem_add, Multiset.mem_singleton, not_or, h.1]
    exact ⟨Bool.noConfusion, h.2.notMem_flags⟩
  | reference _ _ _, h => h.elim

theorem OwnAll.notMem_flags : ∀ {ts : List (ItemTree D)}, OwnAll ts → true ∉ flagsAll ts
  | [], _ => Multiset.notMem_zero _
  | t :: ts, h => by
    rw [flagsAll, Multiset.mem_add, not_or]
    exact ⟨h.1.notMem_flags, h.2.notMem_flags⟩

end

theorem flags_label (t : ItemTree D) : t.label.name.isConst ∈ t.flags := by
  cases t with
  | item a l children => exact Multiset.mem_add.mpr (.inl (Multiset.mem_singleton_self _))
  | reference a l child => exact Multiset.mem_singleton_self _

end ItemTree

/-! ## Flags of a forest -/

section

omit [CDouble D]

def Ctx.flags : Ctx D → Multiset Bool
  | hole => 0
  | item _ l before c after =>
    {l.name.isConst} + (flagsAll before + (c.flags + flagsAll after))

theorem Ctx.flags_plug (C : Ctx D) (t : ItemTree D) :
    (C.plug t).flags = t.flags + C.flags := by
  induction C with
  | hole => exact (add_zero _).symm
  | item a l before c after ih =>
      rw [plug, ItemTree.flags, flagsAll_append, flagsAll, ih, Ctx.flags]
      abel

def forestFlags (F : Multiset (ItemTree D)) : Multiset Bool := F.bind ItemTree.flags

variable {a : ℕ} {l : ItemLabel D} {C : Ctx D} {t u : ItemTree D}
  {xs ys children : List (ItemTree D)} {F : Multiset (ItemTree D)} {b : Bool}

theorem forestFlags_add (t : ItemTree D) (F : Multiset (ItemTree D)) :
    forestFlags ({t} + F) = t.flags + forestFlags F := by
  rw [forestFlags, Multiset.add_bind, Multiset.singleton_bind, forestFlags]

theorem notMem_forestFlags_add :
    b ∉ forestFlags ({t} + F) ↔ b ∉ t.flags ∧ b ∉ forestFlags F := by
  rw [forestFlags_add, Multiset.mem_add, not_or]

theorem notMem_forestFlags_held :
    b ∉ forestFlags ({u} + ({t} + F)) ↔ b ∉ t.flags ∧ b ∉ forestFlags ({u} + F) := by
  rw [add_left_comm, notMem_forestFlags_add]

theorem notMem_forestFlags_mid :
    b ∉ forestFlags ({C.plug (.item a l (xs ++ t :: ys))} + F) ↔
      b ∉ t.flags ∧ b ∉ forestFlags ({C.plug (.item a l (xs ++ ys))} + F) := by
  rw [forestFlags_add, forestFlags_add, Ctx.flags_plug, Ctx.flags_plug, flags, flags,
    flagsAll_append, flagsAll_append, flagsAll, ← not_or, ← Multiset.mem_add]
  refine not_congr (iff_of_eq (congrArg (b ∈ ·) ?_))
  abel

theorem notMem_forestFlags_behind :
    b ∉ forestFlags ({C.plug (.item a l (children ++ [t]))} + F) ↔
      b ∉ t.flags ∧ b ∉ forestFlags ({C.plug (.item a l children)} + F) := by
  rw [notMem_forestFlags_mid, List.append_nil]

theorem notMem_flags_leaf (h : l.name.isConst = false) :
    true ∉ (ItemTree.item a l []).flags := by
  rw [flags, flagsAll, add_zero, h, Multiset.mem_singleton]
  exact Bool.noConfusion

/-- A reference takes the flag from the item. -/
theorem notMem_flags_refer {k : ℕ} (h : b ∉ forestFlags ({C.plug u} + F)) :
    b ∉ (u.refer k).flags := by
  rw [notMem_forestFlags_add, Ctx.flags_plug, Multiset.mem_add, not_or] at h
  rw [refer, flags, Multiset.mem_singleton]
  rintro rfl
  exact h.1.1 (flags_label u)

end

/-! ## Strings that are lost -/

omit [CDouble D] in
theorem Copied.lost_le {Q : ItemTree D → Prop} {flagged : Multiset (List UInt8)} {s σ : Forest D}
    {r : Option ℕ} (hcopied : Copied Q flagged s r σ) : s.lost ≤ σ.lost := by
  obtain ⟨-, ⟨-, -, -, lost, hlost, -⟩ | ⟨t, -, -, -, hlost⟩⟩ := hcopied
  · exact (Multiset.le_add_left _ _).trans hlost.ge
  · exact hlost.ge

theorem ArrayDone.lost {α : Type} {leaf : (ℕ → Bool) → ℕ → α → ItemTree D} {w : ℕ} {xs : List α}
    {s σ : Forest D} {r : Option ℕ} (hd : ArrayDone leaf w xs s r σ) : σ.lost = s.lost := by
  cases hd <;> rfl

/-! ## Programs that lose no strings -/

/-- The call is of none of the functions that lose strings. -/
def Call.Tidy : Call D → Prop
  | addItemToObjectCs _ _ _ => False
  | replaceItemInObject _ _ _ => False
  | _ => True

omit [CDouble D] in
theorem Copied.tidy {Q : ItemTree D → Prop} {flagged : Multiset (List UInt8)} {s σ : Forest D}
    {r : Option ℕ} (hcopied : Copied Q flagged s r σ) (hs : true ∉ forestFlags s.trees)
    (hQ : ∀ t, Q t → true ∉ t.flags) (hflagged : flagged = 0) :
    true ∉ forestFlags σ.trees ∧ σ.lost = s.lost := by
  obtain ⟨-, ⟨-, -, htrees, lost, hlost, hle⟩ | ⟨t, -, ht, htrees, hlost⟩⟩ := hcopied
  · rw [hflagged, Multiset.le_zero, Multiset.map_eq_zero] at hle
    rw [htrees, hlost, hle, zero_add]
    exact ⟨hs, rfl⟩
  · rw [htrees, notMem_forestFlags_add]
    exact ⟨⟨hQ t ht, hs⟩, hlost⟩

omit [CDouble D] in
theorem notMem_flagsAll_leaves {α : Type} {leaf : (ℕ → Bool) → ℕ → α → ItemTree D} {w : ℕ}
    (hleaf : ∀ m k x, true ∉ (leaf m k x).flags) (m : ℕ → Bool) (k : ℕ) (xs : List α) :
    true ∉ flagsAll (leaves leaf w m k xs) := by
  induction xs generalizing k with
  | nil => exact Multiset.notMem_zero _
  | cons x xs ih =>
      rw [leaves, flagsAll, Multiset.mem_add, not_or]
      exact ⟨hleaf m k x, ih (k + w)⟩

theorem ArrayDone.tidy {α : Type} {leaf : (ℕ → Bool) → ℕ → α → ItemTree D} {w : ℕ} {xs : List α}
    {s σ : Forest D} {r : Option ℕ} (hd : ArrayDone leaf w xs s r σ)
    (hleaf : ∀ m k x, true ∉ (leaf m k x).flags) (hs : true ∉ forestFlags s.trees) :
    true ∉ forestFlags σ.trees ∧ σ.lost = s.lost := by
  cases hd with
  | null => exact ⟨hs, rfl⟩
  | all =>
      refine ⟨notMem_forestFlags_add.mpr ⟨?_, hs⟩, rfl⟩
      rw [flags, Multiset.mem_add, Multiset.mem_singleton, not_or]
      exact ⟨Bool.noConfusion, notMem_flagsAll_leaves hleaf _ _ _⟩
  | single => exact ⟨notMem_forestFlags_add.mpr ⟨notMem_flags_leaf rfl, hs⟩, rfl⟩

theorem Does.tidy {c : Call D} {s σ : Forest D} {r : Option ℕ} (hd : Does c s r σ) (hc : c.Tidy)
    (hs : true ∉ forestFlags s.trees) :
    true ∉ forestFlags σ.trees ∧ σ.lost = s.lost := by
  have hfreed : ∀ {t : ItemTree D} {G : Multiset (ℕ × List UInt8)}, true ∉ t.flags →
      t.leaky + G = G := fun ht ↦ by rw [leaky_eq_zero ht, zero_add]
  cases hd with
  | parse hdone =>
      cases hdone with
      | null => exact ⟨hs, rfl⟩
      | ends ht => exact ⟨notMem_forestFlags_add.mpr ⟨ht.notMem_flags, hs⟩, rfl⟩
  | new hc' =>
      obtain ⟨-, hname⟩ := Call.label_plain hc'
      exact ⟨notMem_forestFlags_add.mpr ⟨notMem_flags_leaf (congrArg TreeName.isConst hname), hs⟩,
        rfl⟩
  | createString => exact ⟨notMem_forestFlags_add.mpr ⟨notMem_flags_leaf rfl, hs⟩, rfl⟩
  | createIntArray hdone => exact hdone.tidy (fun _ _ _ ↦ notMem_flags_leaf rfl) hs
  | createDoubleArray hdone => exact hdone.tidy (fun _ _ _ ↦ notMem_flags_leaf rfl) hs
  | createStringArray hdone => exact hdone.tidy (fun _ _ _ ↦ notMem_flags_leaf rfl) hs
  | addItemToArray =>
      exact ⟨notMem_forestFlags_behind.mpr (notMem_forestFlags_held.mp hs), rfl⟩
  | addItemToObject =>
      obtain ⟨ht, hF⟩ := notMem_forestFlags_held.mp hs
      rw [← flags_rename _ (isConst_strdupName _ _ _ _)] at ht
      exact ⟨notMem_forestFlags_behind.mpr ⟨ht, hF⟩, rfl⟩
  | addItemToObjectCs => exact hc.elim
  | addItemReferenceToArray hu =>
      have hrefer := hs
      rw [hu] at hrefer
      exact ⟨notMem_forestFlags_behind.mpr ⟨notMem_flags_refer hrefer, hs⟩, rfl⟩
  | @addItemReferenceToObject _ _ _ _ _ u _ _ _ _ k _ hu =>
      have hrefer := hs
      rw [hu] at hrefer
      have ht := notMem_flags_refer (k := k) hrefer
      rw [← flags_rename _ ((isConst_strdupName _ _ _ _).trans
        (congrArg TreeName.isConst (name_refer u k)).symm)] at ht
      exact ⟨notMem_forestFlags_behind.mpr ⟨ht, hs⟩, rfl⟩
  | detachItemFromArray =>
      exact ⟨notMem_forestFlags_held.mpr (notMem_forestFlags_mid.mp hs), rfl⟩
  | deleteItemFromArray =>
      obtain ⟨ht, hF⟩ := notMem_forestFlags_mid.mp hs
      exact ⟨hF, hfreed ht⟩
  | detachItemFromObject =>
      exact ⟨notMem_forestFlags_held.mpr (notMem_forestFlags_mid.mp hs), rfl⟩
  | deleteItemFromObject =>
      obtain ⟨ht, hF⟩ := notMem_forestFlags_mid.mp hs
      exact ⟨hF, hfreed ht⟩
  | insertItemInArray =>
      exact ⟨notMem_forestFlags_mid.mpr (notMem_forestFlags_held.mp hs), rfl⟩
  | replaceItemInArray =>
      obtain ⟨ht, hF⟩ := notMem_forestFlags_held.mp hs
      obtain ⟨hu, hF⟩ := notMem_forestFlags_mid.mp hF
      exact ⟨notMem_forestFlags_mid.mpr ⟨ht, hF⟩, hfreed hu⟩
  | replaceItemInObject => exact hc.elim
  | duplicate hu _ hcopied =>
      have hflags := hs
      rw [hu, notMem_forestFlags_add, Ctx.flags_plug, Multiset.mem_add, not_or] at hflags
      refine hcopied.tidy hs (fun t ht ↦ ?_) (flagged_eq_zero hflags.1.1)
      rw [ht.flags]
      exact hflags.1.1
  | duplicateItem hu hcopied =>
      have hflags := hs
      rw [hu, notMem_forestFlags_add, Ctx.flags_plug, flags, Multiset.mem_add, Multiset.mem_add,
        not_or, not_or] at hflags
      refine hcopied.tidy hs (fun t ht ↦ ?_) rfl
      rw [ht.flags, flags, flagsAll, add_zero]
      exact hflags.1.1.1
  | delete =>
      obtain ⟨ht, hF⟩ := notMem_forestFlags_add.mp hs
      exact ⟨hF, hfreed ht⟩
  | _ => exact ⟨hs, rfl⟩

/-- A program that calls neither of the two functions loses no strings. -/
theorem Client.Leads.tidy {p : Client D} {s σ : Forest D} (hl : p.Leads s σ)
    (hp : p.Calls Call.Tidy) (hs : true ∉ forestFlags s.trees) : σ.lost = s.lost := by
  induction hl with
  | done => rfl
  | @call _ _ _ _ _ r hd _ ih =>
      obtain ⟨htrees, hlost⟩ := hd.tidy hp.1 hs
      exact (ih (hp.2 r) htrees).trans hlost

/-! ## Programs that lose strings -/

/-- No call frees a string that was lost. -/
theorem Does.lost_le {c : Call D} {s σ : Forest D} {r : Option ℕ} (hd : Does c s r σ) :
    s.lost ≤ σ.lost := by
  cases hd with
  | parse hdone =>
      cases hdone <;>
        exact le_rfl
  | createIntArray hdone => exact hdone.lost.ge
  | createDoubleArray hdone => exact hdone.lost.ge
  | createStringArray hdone => exact hdone.lost.ge
  | addItemToObjectCs => exact Multiset.le_add_left _ _
  | deleteItemFromArray => exact Multiset.le_add_left _ _
  | deleteItemFromObject => exact Multiset.le_add_left _ _
  | replaceItemInArray => exact Multiset.le_add_left _ _
  | replaceItemInObject => exact (Multiset.le_add_left _ _).trans (Multiset.le_add_left _ _)
  | duplicate _ _ hcopied => exact hcopied.lost_le
  | duplicateItem _ hcopied => exact hcopied.lost_le
  | delete => exact Multiset.le_add_left _ _
  | _ => exact le_rfl

theorem Client.Leads.lost_le {p : Client D} {s σ : Forest D} (hp : p.Leads s σ) :
    s.lost ≤ σ.lost := by
  induction hp with
  | done => exact le_rfl
  | call hd _ ih => exact hd.lost_le.trans ih

/-- `cJSON_ReplaceItemInObject` forgets the name that the new item had: the string stays allocated,
however the program goes on. -/
theorem cJsonReplaceItemInObject_loses {C : Ctx D} {object a k : ℕ} {l : ItemLabel D}
    {xs ys : List (ItemTree D)} {t u : ItemTree D} {F : Multiset (ItemTree D)}
    {G : Multiset (ℕ × List UInt8)} {m : ℕ → Bool} {h : CJsonHeap D} {s name : List UInt8}
    {isConst : Bool}
    (hs : Stands h ⟨{C.plug (.item object l (xs ++ u :: ys))} + ({t} + F), G, k, m⟩)
    (hxs : ∀ v ∈ xs, ¬v.Matches s) (hu : u.Matches s)
    (ht : t.label.name = .block isConst a name) :
    ∃ h₁ σ, h.cJsonReplaceItemInObject object (.caller s) t.addr = some h₁ ∧ Stands h₁ σ ∧
      ∀ p : Client D, p.Obeys σ → ∃ h₂, p.run h₁ = some h₂ ∧ h₂.texts a = some name := by
  obtain ⟨h₁, hreplace, hs₁⟩ := stands_replaceItemInObject hs hxs hu
  refine ⟨h₁, _, hreplace, hs₁, fun p hp ↦ ?_⟩
  obtain ⟨h₂, τ, hrun, hleads, hs₂⟩ := hp.stands hs₁
  have hname : (a, name) ∈ u.leaky + (t.label.name.text + G) := by
    rw [ht]
    exact Multiset.mem_add.mpr (.inr (Multiset.mem_add.mpr
      (.inl (Multiset.mem_singleton_self _))))
  have hlost : (a, name) ∈ τ.lost := Multiset.mem_of_le hleads.lost_le hname
  exact ⟨h₂, hrun, hs₂.holds.texts.get_of_mem (Multiset.mem_add.mpr (.inr hlost))⟩

theorem cJsonReplaceItemInObject_loses_name :
    ∃ h h₁ : CJsonHeap ℚ, h.cJsonReplaceItemInObject 1 (.caller []) 0 = some h₁ ∧
      h₁.texts 2 = some [] := by
  obtain ⟨h₁, l, hname, hs₁⟩ := stands_pair (0 : ℚ)
  have hown : ∀ s, (ItemTree.item 0 l []).label.name ≠ .caller s := fun s h ↦ by
    rw [label, hname] at h
    cases h
  -- the item gets its name in the object, and is taken out again
  obtain ⟨h₂, -, hs₂⟩ := stands_addItemToObject hs₁ hown []
  obtain ⟨h₃, -, hs₃⟩ := stands_detachItemFromArray (C := .hole) 0 hs₂ rfl
  obtain ⟨h₄, -, hs₄⟩ := stands_newItem_some (l := plainLabel .null) hs₃ rfl rfl rfl
  rw [add_left_comm] at hs₄
  obtain ⟨h₅, -, hs₅⟩ := stands_addItemToObjectCs (C := .hole) hs₄ []
  obtain ⟨h₆, σ, hreplace, -, hrun⟩ := cJsonReplaceItemInObject_loses (C := .hole) (s := []) hs₅
    (fun v hv ↦ by cases hv) (by decide) rfl
  obtain ⟨h₇, hdone, htext⟩ := hrun .done trivial
  cases hdone
  exact ⟨h₅, h₆, hreplace, htext⟩

theorem Does.delete_some {a : ℕ} {s σ : Forest D} {r : Option ℕ}
    (hd : Does (.delete (some a)) s r σ) : σ.trees.card + 1 = s.trees.card := by
  cases hd with
  | new hc => cases hc
  | newFails hc => cases hc
  | delete => rw [Multiset.card_add, Multiset.card_singleton, Nat.add_comm]

theorem Does.delete_null {s σ : Forest D} {r : Option ℕ} (hd : Does (.delete none) s r σ) :
    σ.trees.card = s.trees.card := by
  cases hd with
  | new hc => cases hc
  | newFails hc => cases hc
  | deleteNull => rfl

/-- A program that calls neither of the two functions loses no string, and when it has no tree left
all the memory that it used has been freed. -/
theorem client_frees {p : Client D} {m : ℕ → Bool} (hp : p.Obeys ⟨0, 0, 0, m⟩)
    (hcalls : p.Calls Call.Tidy) :
    ∃ h σ, p.run (CJsonHeap.empty m) = some h ∧ p.Leads ⟨0, 0, 0, m⟩ σ ∧ σ.lost = 0 ∧
      (σ.trees = 0 → h.items = (fun _ ↦ none) ∧ h.texts = fun _ ↦ none) := by
  obtain ⟨h, σ, hrun, hleads, hs⟩ := hp.stands (stands_empty m)
  have hlost : σ.lost = 0 := hleads.tidy hcalls (Multiset.notMem_zero _)
  refine ⟨h, σ, hrun, hleads, hlost, fun htrees ↦ ?_⟩
  have hholds := hs.holds
  rw [htrees, hlost] at hholds
  exact ⟨hholds.items.eq_none, hholds.texts.eq_none⟩

/-- A text is parsed, and what it becomes is deleted. -/
theorem client_frees_parse :
    ∃ h : CJsonHeap ℚ, (Client.call (.parse [byte '[', byte '1', byte ']'] true) fun a ↦
        .call (.delete a) fun _ ↦ .done).run (CJsonHeap.empty fun _ ↦ true) = some h ∧
      h.items = (fun _ ↦ none) ∧ h.texts = fun _ ↦ none := by
  have hobeys : (Client.call (.parse [byte '[', byte '1', byte ']'] true) fun a ↦
      .call (.delete a) fun _ ↦ .done : Client ℚ).Obeys ⟨0, 0, 0, fun _ ↦ true⟩ := by
    have hover : cJsonParseWithOpts (D := ℚ) [byte '[', byte '1', byte ']'] true ≠
        .error .overrun := fun h ↦ by cases h
    obtain ⟨r, σ, hdone⟩ := exists_parseDone ⟨0, 0, 0, fun _ ↦ true⟩ hover
    refine ⟨⟨r, σ, .parse hdone⟩, fun r σ hd ↦ ?_⟩
    cases hd with
    | new hc => cases hc
    | newFails hc => cases hc
    | parse hdone =>
        cases hdone with
        | null => exact ⟨⟨_, _, .deleteNull⟩, fun _ _ _ ↦ trivial⟩
        | ends => exact ⟨⟨_, _, .delete⟩, fun _ _ _ ↦ trivial⟩
  obtain ⟨h, σ, hrun, hleads, -, hfreed⟩ := client_frees hobeys
    ⟨trivial, fun _ ↦ ⟨trivial, fun _ ↦ trivial⟩⟩
  have htrees : σ.trees = 0 := by
    cases hleads with
    | call hparse hrest =>
        cases hrest with
        | call hdelete hdone =>
            cases hdone
            cases hparse with
            | new hc => cases hc
            | newFails hc => cases hc
            | parse hdone =>
                cases hdone with
                | null => exact Multiset.card_eq_zero.mp hdelete.delete_null
                | ends => exact Multiset.card_eq_zero.mp (Nat.succ.inj hdelete.delete_some)
  exact ⟨h, hrun, hfreed htrees⟩

end OsaBase
