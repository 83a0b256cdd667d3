import Mathlib.Data.List.Nodup
import Mathlib.Logic.Function.Basic

/-!
# Linked lists in a heap

A heap maps addresses to nodes, each with a datum and a pointer to the next node. `Segment heap p
cells q` says that the pointers lead from `p` through the cells to `q`. A heap that changes outside
the cells keeps the segment; linking a node behind the last one and unlinking a node in the middle
are the two changes inside.
-/

namespace Chain

structure Node (A D : Type*) where
  data : D
  next : Option A
  deriving DecidableEq, Repr

variable {A D : Type*} {heap heap' : A → Option (Node A D)} {p q r : Option A} {a b : A} {d e : D}
  {xs ys cells : List (A × D)}

def Segment (heap : A → Option (Node A D)) : Option A → List (A × D) → Option A → Prop
  | p, [], q => p = q
  | p, (a, d) :: cells, q => p = some a ∧ ∃ next, heap a = some ⟨d, next⟩ ∧
      Segment heap next cells q

@[simp] theorem segment_nil : Segment heap p [] q ↔ p = q := Iff.rfl

@[simp] theorem segment_cons : Segment heap p ((a, d) :: cells) q ↔
    p = some a ∧ ∃ next, heap a = some ⟨d, next⟩ ∧ Segment heap next cells q := Iff.rfl

theorem segment_append :
    Segment heap p (xs ++ ys) q ↔ ∃ r, Segment heap p xs r ∧ Segment heap r ys q := by
  induction xs generalizing p with
  | nil => simp
  | cons x xs ih =>
      obtain ⟨a, d⟩ := x
      simp only [List.cons_append, segment_cons, ih]
      constructor
      · rintro ⟨hp, next, hnode, r, hxs, hys⟩
        exact ⟨r, ⟨hp, next, hnode, hxs⟩, hys⟩
      · rintro ⟨r, ⟨hp, next, hnode, hxs⟩, hys⟩
        exact ⟨hp, next, hnode, r, hxs, hys⟩

/-- The frame rule: only the nodes of the segment matter. -/
theorem Segment.congr (h : Segment heap p cells q)
    (hsame : ∀ a ∈ cells.map Prod.fst, heap' a = heap a) : Segment heap' p cells q := by
  induction cells generalizing p with
  | nil => exact h
  | cons x cells ih =>
      obtain ⟨a, d⟩ := x
      obtain ⟨hp, next, hnode, hrest⟩ := h
      refine ⟨hp, next, ?_, ih hrest fun b hb ↦ hsame b (List.mem_cons_of_mem _ hb)⟩
      rw [hsame a (by simp), hnode]

theorem Segment.allocated (h : Segment heap p cells q) (hmem : (a, d) ∈ cells) :
    ∃ next, heap a = some ⟨d, next⟩ := by
  induction cells generalizing p with
  | nil => cases hmem
  | cons x cells ih =>
      obtain ⟨hp, next, hnode, hrest⟩ := h
      rcases List.mem_cons.mp hmem with rfl | hmem
      · exact ⟨next, hnode⟩
      · exact ih hrest hmem

/-- The pointers determine the cells of a whole list. -/
theorem Segment.unique (hxs : Segment heap p xs none) (hys : Segment heap p ys none) :
    xs = ys := by
  induction xs generalizing p ys with
  | nil =>
      obtain rfl : p = none := hxs
      cases ys with
      | nil => rfl
      | cons y ys => cases hys.1
  | cons x xs ih =>
      obtain ⟨a, d⟩ := x
      obtain ⟨rfl, next, hnode, hrest⟩ := hxs
      cases ys with
      | nil => cases hys
      | cons y ys =>
          obtain ⟨b, e⟩ := y
          obtain ⟨hb, next', hnode', hrest'⟩ := hys
          obtain rfl : a = b := Option.some.inj hb
          rw [hnode] at hnode'
          cases hnode'
          rw [ih hrest hrest']

/-- Pointers that lead to an address without a node lead to the end of no list. -/
theorem Segment.not_whole (h : Segment heap p xs (some a)) (ha : heap a = none) :
    ¬ Segment heap p ys none := by
  induction xs generalizing p ys with
  | nil =>
      obtain rfl : p = some a := h
      intro hys
      cases ys with
      | nil => cases hys
      | cons y ys =>
          obtain ⟨hb, next, hnode, -⟩ := hys
          rw [← Option.some.inj hb, ha] at hnode
          cases hnode
  | cons x xs ih =>
      obtain ⟨b, d⟩ := x
      obtain ⟨rfl, next, hnode, hrest⟩ := h
      intro hys
      cases ys with
      | nil => cases hys
      | cons y ys =>
          obtain ⟨hb, next', hnode', hrest'⟩ := hys
          rw [← Option.some.inj hb, hnode] at hnode'
          cases hnode'
          exact ih hrest hrest'

/-- A whole list comes to no node twice: behind the node the pointers lead through one and the same
rest. -/
theorem Segment.nodup (h : Segment heap p cells none) : (cells.map Prod.fst).Nodup := by
  induction cells generalizing p with
  | nil => exact List.nodup_nil
  | cons x cells ih =>
      obtain ⟨a, d⟩ := x
      obtain ⟨-, next, hnode, hrest⟩ := id h
      refine List.nodup_cons.mpr ⟨fun hmem ↦ ?_, ih hrest⟩
      obtain ⟨⟨b, e⟩, hcell, rfl⟩ := List.mem_map.mp hmem
      obtain ⟨xs, ys, rfl⟩ := List.append_of_mem hcell
      obtain ⟨r, -, rfl, next', hnode', hys⟩ := segment_append.mp hrest
      have hagain : Segment heap next ys none := by
        rw [hnode] at hnode'
        cases hnode'
        exact hys
      have hlength := congrArg List.length (hrest.unique hagain)
      simp at hlength
      omega

/-- The next pointer of a node of a whole list leads to a node of it. -/
theorem Segment.next_mem (h : Segment heap p cells none) (hmem : (a, d) ∈ cells) {node : Node A D}
    (hnode : heap a = some node) (hnext : node.next = some b) : ∃ e, (b, e) ∈ cells := by
  induction cells generalizing p with
  | nil => cases hmem
  | cons x cells ih =>
      obtain ⟨hp, next, hnode', hrest⟩ := h
      rcases List.mem_cons.mp hmem with rfl | hmem
      · rw [hnode] at hnode'
        cases hnode'
        cases hnext
        cases cells with
        | nil => cases hrest
        | cons y cells => exact ⟨y.2, by rw [Option.some.inj hrest.1]; simp⟩
      · obtain ⟨e, he⟩ := ih hrest hmem
        exact ⟨e, List.mem_cons_of_mem _ he⟩

section

variable [DecidableEq A]

/-- A segment that does not contain the address keeps through a write there. -/
theorem Segment.update (h : Segment heap p cells q) (ha : a ∉ cells.map Prod.fst)
    (node : Option (Node A D)) : Segment (Function.update heap a node) p cells q := by
  refine h.congr fun b hb ↦ Function.update_of_ne ?_ ..
  rintro rfl
  exact ha hb

/-- What the pointers lead through without the node `a` they lead through with it. -/
theorem Segment.of_free (h : Segment (Function.update heap a none) p cells q) :
    Segment heap p cells q := by
  induction cells generalizing p with
  | nil => exact h
  | cons x cells ih =>
      obtain ⟨b, d⟩ := x
      obtain ⟨rfl, next, hnode, hrest⟩ := h
      have hba : b ≠ a := by
        rintro rfl
        rw [Function.update_self] at hnode
        cases hnode
      rw [Function.update_of_ne hba] at hnode
      exact ⟨rfl, next, hnode, ih hrest⟩

/-- A list that is whole with the node `a` in front was whole before. -/
theorem Segment.of_push (h : Segment (Function.update heap a (some ⟨d, p⟩)) (some a) cells none) :
    ∃ ys, Segment heap p ys none := by
  have hnodup := h.nodup
  cases cells with
  | nil => cases h
  | cons x cells =>
      obtain ⟨b, e⟩ := x
      obtain ⟨hb, next, hnode, hrest⟩ := h
      obtain rfl := Option.some.inj hb
      rw [Function.update_self] at hnode
      cases hnode
      have ha := (List.nodup_cons.mp hnodup).1
      refine ⟨cells, hrest.congr fun c hc ↦ (Function.update_of_ne ?_ ..).symm⟩
      rintro rfl
      exact ha hc

/-- A list that is whole when the node `b` leads past the node `a` behind it was whole before. -/
theorem Segment.of_unlink {next : Option A} (hb : heap b = some ⟨e, some a⟩)
    (ha : heap a = some ⟨d, next⟩)
    (h : Segment (Function.update (Function.update heap b (some ⟨e, next⟩)) a none) p cells none) :
    ∃ ys, Segment heap p ys none := by
  induction cells generalizing p with
  | nil => exact ⟨[], h⟩
  | cons x cells ih =>
      obtain ⟨c, f⟩ := x
      obtain ⟨rfl, next', hnode, hrest⟩ := h
      obtain ⟨ys, hys⟩ := ih hrest
      have hca : c ≠ a := by
        rintro rfl
        rw [Function.update_self] at hnode
        cases hnode
      rw [Function.update_of_ne hca] at hnode
      by_cases hcb : c = b
      · subst hcb
        rw [Function.update_self] at hnode
        cases hnode
        exact ⟨(c, e) :: (a, d) :: ys, rfl, _, hb, rfl, _, ha, hys⟩
      · rw [Function.update_of_ne hcb] at hnode
        exact ⟨(c, f) :: ys, rfl, next', hnode, hys⟩

/-- The node `b` is linked behind the last node `a`. -/
theorem Segment.snoc (h : Segment heap p (xs ++ [(a, d)]) q)
    (hnodup : ((xs ++ [(a, d)]).map Prod.fst).Nodup)
    (hb : b ∉ (xs ++ [(a, d)]).map Prod.fst) :
    Segment (Function.update (Function.update heap b (some ⟨e, q⟩)) a (some ⟨d, some b⟩)) p
      (xs ++ [(a, d), (b, e)]) q := by
  obtain ⟨r, hxs, hlast⟩ := segment_append.mp h
  obtain ⟨rfl, next, -, rfl⟩ := hlast
  simp only [List.map_append, List.map_cons, List.map_nil, List.mem_append, List.mem_singleton,
    not_or] at hnodup hb
  have ha : a ∉ xs.map Prod.fst := by
    intro hmem
    exact (List.nodup_append.mp hnodup).2.2 a hmem a (by simp) rfl
  refine segment_append.mpr ⟨some a, (hxs.update hb.1 _).update ha _, rfl, some b, ?_, rfl, next,
    ?_, rfl⟩
  · exact Function.update_self ..
  · rw [Function.update_of_ne hb.2, Function.update_self]

/-- The node `a` between `xs` and `ys` is unlinked: its predecessor, the last node of `xs`, now
points behind it. -/
theorem Segment.unlink (h : Segment heap p (xs ++ [(b, e)] ++ (a, d) :: ys) q)
    (hnodup : ((xs ++ [(b, e)] ++ (a, d) :: ys).map Prod.fst).Nodup) {next : Option A}
    (hnode : heap a = some ⟨d, next⟩) :
    Segment (Function.update (Function.update heap b (some ⟨e, next⟩)) a none) p
      (xs ++ (b, e) :: ys) q := by
  obtain ⟨r, hpre, hsuf⟩ := segment_append.mp h
  obtain ⟨r', hxs, hb⟩ := segment_append.mp hpre
  obtain ⟨rfl, r, -, rfl⟩ := hb
  obtain ⟨rfl, next', hnode', hys⟩ := hsuf
  obtain rfl : next' = next := by
    rw [hnode] at hnode'
    cases hnode'
    rfl
  simp only [List.append_assoc, List.cons_append, List.nil_append, List.map_append, List.map_cons]
    at hnodup
  obtain ⟨hxs', hrest, hne⟩ := List.nodup_append.mp hnodup
  obtain ⟨hbrest, hays⟩ := List.nodup_cons.mp hrest
  obtain ⟨hays, hys'⟩ := List.nodup_cons.mp hays
  have hbxs : b ∉ xs.map Prod.fst := fun hmem ↦ hne b hmem b (by simp) rfl
  have haxs : a ∉ xs.map Prod.fst := fun hmem ↦ hne a hmem a (by simp) rfl
  have hba : b ≠ a := fun heq ↦ hbrest (heq ▸ List.mem_cons_self ..)
  have hbys : b ∉ ys.map Prod.fst := fun hmem ↦ hbrest (List.mem_cons_of_mem _ hmem)
  refine segment_append.mpr ⟨some b, (hxs.update hbxs _).update haxs _, rfl, next', ?_,
    (hys.update hbys _).update hays _⟩
  rw [Function.update_of_ne hba, Function.update_self]

end

end Chain
