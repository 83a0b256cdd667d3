import OsaBase.Lib.Chain
import OsaBase.Osa

/-!
# The linked list `osa_list.c`

The list of data pointers behind a `HeadNode`, with the heap of its nodes. The loops over the nodes
take `nSize` as their bound, which is never below the number of nodes. It is an `int`; the pushes
that it has counted stay below `2 ^ 31`. A function is `none` when it follows a pointer that leads
to no node.
-/

open Chain

namespace OsaBase

/-- `data` is the node's `pData`. -/
abbrev DataNode := Chain.Node ℕ ℕ

/-- `HeadNode`, and the nodes that are allocated. -/
structure ListHandle where
  next : Option ℕ
  nSize : ℤ
  nodes : ℕ → Option DataNode

/-- `list_create` -/
def listCreate : ListHandle := ⟨none, 0, fun _ ↦ none⟩

namespace ListHandle

/-- `FindNodeTail` from a node on. -/
def findNodeTail (nodes : ℕ → Option DataNode) : ℕ → Option ℕ → Option ℕ
  | 0, _ => none
  | k + 1, pNode => pNode.bind fun a ↦ (nodes a).bind fun node ↦
      match node.next with
      | none => some a
      | some b => findNodeTail nodes k (some b)

/-- `ListInsert`; `mem` is what `malloc` returns. -/
def listInsert (l : ListHandle) (prev : ℕ) (mem : Option ℕ) (pData : ℕ) : Option ListHandle :=
  match mem with
  | none => some l
  | some a => (l.nodes prev).map fun node ↦
      let nodes := Function.update l.nodes a (some ⟨pData, node.next⟩)
      { l with nodes := Function.update nodes prev (some { node with next := some a }) }

def listPushFront (l : ListHandle) (mem : Option ℕ) (pData : ℕ) : ListHandle :=
  match mem with
  | none => l
  | some a =>
    { next := some a
      nSize := l.nSize + 1
      nodes := Function.update l.nodes a (some ⟨pData, l.next⟩) }

def listPushBack (l : ListHandle) (mem : Option ℕ) (pData : ℕ) : Option ListHandle :=
  if l.nSize = 0 then some (l.listPushFront mem pData)
  else
    (findNodeTail l.nodes l.nSize.toNat l.next).bind fun tail ↦
      -- the size grows even if there is no memory for the node
      listInsert { l with nSize := l.nSize + 1 } tail mem pData

/-- The loop of `list_earse_data` at the node `pNode` behind `ptrPrvNode`. -/
def listEarseLoop (l : ListHandle) (pData : ℕ) : ℕ → Option ℕ → Option ℕ → Option ListHandle
  | _, _, none => some l
  | 0, _, some _ => none
  | k + 1, ptrPrvNode, some a => (l.nodes a).bind fun node ↦
    if node.data = pData then
      if l.next = some a then
        some ⟨node.next, l.nSize - 1, Function.update l.nodes a none⟩
      else
        ptrPrvNode.bind fun b ↦ (l.nodes b).map fun prv ↦
          let nodes := Function.update l.nodes b (some { prv with next := node.next })
          { l with nSize := l.nSize - 1, nodes := Function.update nodes a none }
    else listEarseLoop l pData k (some a) node.next

def listEarseData (l : ListHandle) (pData : ℕ) : Option ListHandle :=
  l.listEarseLoop pData l.nSize.toNat none l.next

def listBegin (l : ListHandle) : Option ℕ := l.next

/-- `list_next` of a node. -/
def listNext (l : ListHandle) (a : ℕ) : Option (Option ℕ) := (l.nodes a).map Node.next

def listSize (l : ListHandle) : ℤ := l.nSize

/-! ## The list that the nodes stand for -/

/-- The pointers lead through the cells, each at an address of its own. -/
structure Cells (l : ListHandle) (cells : List (ℕ × ℕ)) : Prop where
  segment : Segment l.nodes l.next cells none
  nodup : (cells.map Prod.fst).Nodup

/-- The list holds the data, and `nSize` is not below their number. -/
structure Holds (l : ListHandle) (ds : List ℕ) : Prop where
  cells : ∃ cells, l.Cells cells ∧ cells.map Prod.snd = ds
  size : (ds.length : ℤ) ≤ l.nSize

/-- The data from a node on, by `list_next`. -/
def walk (nodes : ℕ → Option DataNode) : ℕ → Option ℕ → List ℕ
  | 0, _ => []
  | k + 1, pNode =>
    match pNode.bind nodes with
    | none => []
    | some node => node.data :: walk nodes k node.next

def contents (l : ListHandle) : List ℕ := walk l.nodes l.nSize.toNat l.next

variable {l l' : ListHandle} {ds : List ℕ} {mem : Option ℕ} {pData : ℕ}

theorem walk_of_segment {nodes : ℕ → Option DataNode} {cells : List (ℕ × ℕ)} {p : Option ℕ}
    {k : ℕ} (h : Segment nodes p cells none) (hk : cells.length ≤ k) :
    walk nodes k p = cells.map Prod.snd := by
  induction cells generalizing p k with
  | nil =>
      obtain rfl : p = none := h
      cases k <;> rfl
  | cons x cells ih =>
      obtain ⟨a, d⟩ := x
      obtain ⟨k, rfl⟩ : ∃ j, k = j + 1 := ⟨k - 1, by simp at hk; omega⟩
      obtain ⟨rfl, next, hnode, hrest⟩ := h
      simp only [walk, Option.bind_some, hnode, List.map_cons]
      rw [ih hrest (by simpa using hk)]

theorem listCreate_cells : listCreate.Cells [] := ⟨rfl, List.nodup_nil⟩

theorem listCreate_holds : listCreate.Holds [] where
  cells := ⟨[], listCreate_cells, rfl⟩
  size := Int.le_refl 0

theorem Holds.toNat_size (h : l.Holds ds) : ds.length ≤ l.nSize.toNat := by
  have := h.size
  omega

theorem Holds.contents (h : l.Holds ds) : l.contents = ds := by
  have hfuel := h.toNat_size
  obtain ⟨⟨cells, hcells, rfl⟩, -⟩ := h
  exact walk_of_segment hcells.segment (by simpa using hfuel)

/-- The address of a node that `malloc` returns is not in use. -/
def Fresh (l : ListHandle) (mem : Option ℕ) : Prop := ∀ a ∈ mem, l.nodes a = none

theorem Cells.not_mem_of_fresh {cells : List (ℕ × ℕ)} (h : l.Cells cells) {a : ℕ}
    (ha : l.nodes a = none) : a ∉ cells.map Prod.fst := by
  intro hmem
  obtain ⟨⟨b, d⟩, hcell, rfl⟩ := List.mem_map.mp hmem
  obtain ⟨next, hnode⟩ := h.segment.allocated hcell
  rw [ha] at hnode
  cases hnode

theorem findNodeTail_of_segment {nodes : ℕ → Option DataNode} {a d : ℕ} {xs : List (ℕ × ℕ)}
    {p : Option ℕ} {k : ℕ} (h : Segment nodes p (xs ++ [(a, d)]) none) (hk : xs.length < k) :
    findNodeTail nodes k p = some a := by
  induction xs generalizing p k with
  | nil =>
      obtain ⟨k, rfl⟩ : ∃ j, k = j + 1 := ⟨k - 1, by simp at hk; omega⟩
      obtain ⟨rfl, next, hnode, rfl⟩ := h
      simp [findNodeTail, hnode]
  | cons x xs ih =>
      obtain ⟨b, e⟩ := x
      obtain ⟨k, rfl⟩ : ∃ j, k = j + 1 := ⟨k - 1, by simp at hk; omega⟩
      obtain ⟨rfl, next, hnode, hrest⟩ := h
      have hnext : ∃ c, next = some c := by
        cases xs with
        | nil => exact ⟨_, hrest.1⟩
        | cons y ys => exact ⟨_, hrest.1⟩
      obtain ⟨c, rfl⟩ := hnext
      simp only [findNodeTail, Option.bind_some, hnode]
      exact ih hrest (by simpa using hk)

theorem Cells.pushFront {cells : List (ℕ × ℕ)} {a : ℕ} (h : l.Cells cells)
    (ha : l.nodes a = none) (pData : ℕ) :
    (l.listPushFront (some a) pData).Cells ((a, pData) :: cells) where
  segment :=
    ⟨rfl, l.next, Function.update_self .., h.segment.update (h.not_mem_of_fresh ha) _⟩
  nodup := List.nodup_cons.mpr ⟨h.not_mem_of_fresh ha, h.nodup⟩

/-- The new node is the last cell; no other address is allocated. -/
theorem Cells.pushBack {cells : List (ℕ × ℕ)} {b : ℕ} (h : l.Cells cells)
    (hsize : (cells.length : ℤ) ≤ l.nSize) (hb : l.nodes b = none)
    (hpush : l.listPushBack (some b) pData = some l') :
    l'.Cells (cells ++ [(b, pData)]) ∧ l'.nSize = l.nSize + 1 ∧
      ∀ c, l'.nodes c = none ↔ c ≠ b ∧ l.nodes c = none := by
  have hmem := h.not_mem_of_fresh hb
  by_cases hzero : l.nSize = 0
  · obtain rfl : cells = [] := List.length_eq_zero_iff.mp (by omega)
    simp only [listPushBack, hzero, if_true, Option.some.injEq] at hpush
    subst hpush
    refine ⟨h.pushFront hb pData, by simp [listPushFront, hzero], fun c ↦ ?_⟩
    by_cases hc : c = b <;> simp [listPushFront, hc]
  · simp only [listPushBack, hzero, if_false] at hpush
    obtain ⟨tail, htail, hins⟩ := Option.bind_eq_some_iff.mp hpush
    rcases List.eq_nil_or_concat cells with rfl | ⟨xs, ⟨a, d⟩, rfl⟩
    · have hnext : l.next = none := h.segment
      cases hk : l.nSize.toNat <;> simp [findNodeTail, hnext, hk] at htail
    · rw [List.concat_eq_append] at h hmem hsize ⊢
      obtain rfl : a = tail := by
        rw [findNodeTail_of_segment h.segment (by simp at hsize; omega)] at htail
        exact Option.some.inj htail
      obtain ⟨next, hnode⟩ := h.segment.allocated (a := a) (d := d) (by simp)
      simp only [listInsert, hnode, Option.map_some, Option.some.injEq] at hins
      subst hins
      have hlast : next = none := by
        obtain ⟨r, -, rfl, next', hnode', rfl⟩ := segment_append.mp h.segment
        rw [hnode] at hnode'
        cases hnode'
        rfl
      subst hlast
      have hsplit : xs ++ [(a, d)] ++ [(b, pData)] = xs ++ [(a, d), (b, pData)] := by simp
      refine ⟨⟨?_, ?_⟩, rfl, fun c ↦ ?_⟩
      · rw [hsplit]
        exact h.segment.snoc h.nodup hmem
      · rw [List.map_append, List.nodup_append]
        refine ⟨h.nodup, by simp, ?_⟩
        rintro c hc c' hc' rfl
        simp only [List.map_cons, List.map_nil, List.mem_singleton] at hc'
        exact hmem (hc' ▸ hc)
      · by_cases hca : c = a
        · subst hca
          have hcb : c ≠ b := fun heq ↦ by simp [← heq, hnode] at hb
          simp [hnode, hcb]
        · by_cases hc : c = b
          · subst hc
            simp [Function.update_of_ne hca]
          · simp [hca, hc]

/-- Without memory for the node at most the size changes. -/
theorem Cells.pushBack_none {cells : List (ℕ × ℕ)} (h : l.Cells cells)
    (hpush : l.listPushBack none pData = some l') : l'.Cells cells := by
  by_cases hzero : l.nSize = 0
  · simp only [listPushBack, hzero, if_true, Option.some.injEq] at hpush
    subst hpush
    exact h
  · simp only [listPushBack, hzero, if_false] at hpush
    obtain ⟨tail, -, hins⟩ := Option.bind_eq_some_iff.mp hpush
    obtain rfl : _ = l' := Option.some.inj hins
    exact ⟨h.segment, h.nodup⟩

/-- A datum is appended if there is memory for its node. -/
theorem Holds.push (h : l.Holds ds) (hfresh : l.Fresh mem)
    (hpush : l.listPushBack mem pData = some l') :
    (mem = none → l'.Holds ds ∧ (l.nSize = 0 → l' = l)) ∧
      (mem ≠ none → l'.Holds (ds ++ [pData]) ∧ l'.nSize = l.nSize + 1) := by
  obtain ⟨⟨cells, hcells, rfl⟩, hsize⟩ := h
  rw [List.length_map] at hsize
  constructor
  · rintro rfl
    by_cases hzero : l.nSize = 0
    · simp only [listPushBack, hzero, if_true, Option.some.injEq] at hpush
      subst hpush
      exact ⟨⟨⟨cells, hcells, rfl⟩, by simpa [listPushFront] using hsize⟩, fun _ ↦ rfl⟩
    · simp only [listPushBack, hzero, if_false] at hpush
      obtain ⟨tail, -, hins⟩ := Option.bind_eq_some_iff.mp hpush
      obtain rfl : _ = l' := Option.some.inj hins
      exact ⟨⟨⟨cells, ⟨hcells.segment, hcells.nodup⟩, rfl⟩, by simp; omega⟩,
        fun h0 ↦ (hzero h0).elim⟩
  · intro hmem
    obtain ⟨b, rfl⟩ := Option.ne_none_iff_exists'.mp hmem
    obtain ⟨hcells', hsize', -⟩ := hcells.pushBack hsize (hfresh b rfl) hpush
    exact ⟨⟨⟨_, hcells', by simp⟩, by simp; omega⟩, hsize'⟩

/-- The list takes a datum if its size is the number of its nodes. -/
theorem Holds.push_isSome (h : l.Holds ds) (hsize : l.nSize = ds.length) (mem : Option ℕ)
    (pData : ℕ) : ∃ l', l.listPushBack mem pData = some l' := by
  by_cases hzero : l.nSize = 0
  · exact ⟨_, by rw [listPushBack, if_pos hzero]⟩
  · obtain ⟨⟨cells, hcells, rfl⟩, -⟩ := h
    rw [List.length_map] at hsize
    rcases List.eq_nil_or_concat cells with rfl | ⟨xs, ⟨a, d⟩, rfl⟩
    · exact (hzero hsize).elim
    · rw [List.concat_eq_append] at hcells hsize
      have htail := findNodeTail_of_segment (k := l.nSize.toNat) hcells.segment
        (by simp at hsize; omega)
      obtain ⟨next, hnode⟩ := hcells.segment.allocated (a := a) (d := d) (by simp)
      rw [listPushBack, if_neg hzero, htail, Option.bind_some]
      cases mem with
      | none => exact ⟨_, rfl⟩
      | some b =>
          simp only [listInsert, hnode, Option.map_some]
          exact ⟨_, rfl⟩

/-- The loop passes the cells without the datum and comes to the first one with it. -/
theorem listEarseLoop_skip {xs ys : List (ℕ × ℕ)} {b p : Option ℕ} {k : ℕ}
    (h : Segment l.nodes p (xs ++ ys) none) (hnot : pData ∉ xs.map Prod.snd)
    (hk : xs.length ≤ k) :
    ∃ q, Segment l.nodes q ys none ∧ l.listEarseLoop pData k b p =
      l.listEarseLoop pData (k - xs.length) ((xs.getLast?.map fun x ↦ x.1).or b) q := by
  induction xs generalizing b p k with
  | nil => exact ⟨p, h, by simp⟩
  | cons x xs ih =>
      obtain ⟨a, d⟩ := x
      obtain ⟨k, rfl⟩ : ∃ j, k = j + 1 := ⟨k - 1, by simp at hk; omega⟩
      obtain ⟨rfl, next, hnode, hrest⟩ := h
      simp only [List.map_cons, List.mem_cons, not_or] at hnot
      obtain ⟨q, hq, hloop⟩ := ih (b := some a) hrest hnot.2 (by simpa using hk)
      refine ⟨q, hq, ?_⟩
      have hne : ¬ d = pData := fun heq ↦ hnot.1 heq.symm
      simp only [listEarseLoop, hnode, Option.bind_some, hne, if_false, hloop, List.length_cons,
        Nat.add_sub_add_right]
      congr 1
      cases xs with
      | nil => simp
      | cons y ys => simp [List.getLast?_eq_some_getLast]

theorem mem_split_first {cells : List (ℕ × ℕ)} (h : pData ∈ cells.map Prod.snd) :
    ∃ xs a ys, cells = xs ++ (a, pData) :: ys ∧ pData ∉ xs.map Prod.snd := by
  induction cells with
  | nil => cases h
  | cons x cells ih =>
      obtain ⟨a, d⟩ := x
      by_cases hd : d = pData
      · subst hd
        exact ⟨[], a, cells, rfl, by simp⟩
      · have hrest : pData ∈ cells.map Prod.snd := by
          simpa [Ne.symm hd] using h
        obtain ⟨xs, b, ys, rfl, hnot⟩ := ih hrest
        exact ⟨(a, d) :: xs, b, ys, rfl, by simp [Ne.symm hd] at hnot ⊢; exact hnot⟩

/-- The first node with the datum is unlinked and freed; no other node is freed. -/
theorem Cells.earse {xs ys : List (ℕ × ℕ)} {a : ℕ} (h : l.Cells (xs ++ (a, pData) :: ys))
    (hnot : pData ∉ xs.map Prod.snd)
    (hfuel : (xs ++ (a, pData) :: ys).length ≤ l.nSize.toNat) :
    ∃ l', l.listEarseData pData = some l' ∧ l'.Cells (xs ++ ys) ∧ l'.nSize = l.nSize - 1 ∧
      ∀ c, l'.nodes c = none ↔ c = a ∨ l.nodes c = none := by
  have hk : xs.length ≤ l.nSize.toNat := by
    simp at hfuel
    omega
  obtain ⟨q, hq, hloop⟩ := listEarseLoop_skip (b := none) h.segment hnot hk
  obtain ⟨rfl, next, hnode, hys⟩ := hq
  obtain ⟨k, hk⟩ : ∃ j, l.nSize.toNat - xs.length = j + 1 :=
    ⟨l.nSize.toNat - xs.length - 1, by simp at hfuel; omega⟩
  have hsub : ((xs ++ ys).map Prod.fst).Nodup := by
    refine h.nodup.sublist (List.Sublist.map _ ?_)
    exact List.Sublist.append_left (List.sublist_cons_self ..) xs
  rw [listEarseData, hloop, hk, listEarseLoop, hnode, Option.bind_some, if_pos rfl]
  rcases List.eq_nil_or_concat xs with rfl | ⟨xs, ⟨b, e⟩, rfl⟩
  · have hfirst : l.next = some a := h.segment.1
    have ha : a ∉ ys.map Prod.fst := (List.nodup_cons.mp h.nodup).1
    rw [if_pos hfirst]
    refine ⟨_, rfl, ⟨hys.update ha _, hsub⟩, rfl, fun c ↦ ?_⟩
    by_cases hc : c = a <;> simp [hc]
  · rw [List.concat_eq_append] at *
    obtain ⟨next', hnode'⟩ := h.segment.allocated (a := b) (d := e) (by simp)
    have hfirst : l.next ≠ some a := by
      obtain ⟨y, zs, hyz⟩ : ∃ y zs, xs ++ [(b, e)] = y :: zs := by
        cases xs with
        | nil => exact ⟨_, _, rfl⟩
        | cons y zs => exact ⟨y, zs ++ [(b, e)], rfl⟩
      have hseg := h.segment
      have hnodup := h.nodup
      rw [hyz, List.cons_append] at hseg hnodup
      rw [hseg.1]
      intro heq
      refine (List.nodup_cons.mp hnodup).1 ?_
      rw [Option.some.inj heq]
      simp
    have hcons : xs ++ (b, e) :: ys = xs ++ [(b, e)] ++ ys := by simp
    rw [if_neg hfirst]
    simp only [List.getLast?_append, List.getLast?_singleton, Option.some_or, Option.map_some,
      Option.bind_some, hnode']
    refine ⟨_, rfl, ⟨?_, hsub⟩, rfl, fun c ↦ ?_⟩
    · rw [← hcons]
      exact h.segment.unlink h.nodup hnode
    · by_cases hc : c = a
      · simp [hc]
      · by_cases hcb : c = b
        · subst hcb
          simp [hc, hnode']
        · simp [hc, hcb]

/-- Without the datum nothing happens. -/
theorem Cells.earse_absent {cells : List (ℕ × ℕ)} (h : l.Cells cells)
    (hmem : pData ∉ cells.map Prod.snd) (hfuel : cells.length ≤ l.nSize.toNat) :
    l.listEarseData pData = some l := by
  have hsegment : Segment l.nodes l.next (cells ++ []) none := by
    rw [List.append_nil]
    exact h.segment
  obtain ⟨q, hq, hloop⟩ := listEarseLoop_skip (b := none) hsegment hmem hfuel
  obtain rfl : q = none := hq
  rw [listEarseData, hloop]
  cases l.nSize.toNat - cells.length <;> rfl

theorem erase_map_snd {xs ys : List (ℕ × ℕ)} {a : ℕ} (hnot : pData ∉ xs.map Prod.snd) :
    ((xs ++ (a, pData) :: ys).map Prod.snd).erase pData = (xs ++ ys).map Prod.snd := by
  rw [List.map_append, List.erase_append_right _ hnot]
  simp

/-- If no datum occurs twice, all the cells but those with the datum stay. -/
theorem Cells.earse_filter {cells : List (ℕ × ℕ)} (h : l.Cells cells)
    (hnodup : (cells.map Prod.snd).Nodup) (hfuel : cells.length ≤ l.nSize.toNat)
    (hearse : l.listEarseData pData = some l') :
    l'.Cells (cells.filter fun c ↦ decide (c.2 ≠ pData)) := by
  by_cases hmem : pData ∈ cells.map Prod.snd
  · obtain ⟨xs, a, ys, rfl, hnot⟩ := mem_split_first hmem
    obtain ⟨l₁, hl₁, hcells, -⟩ := h.earse hnot hfuel
    obtain rfl : l₁ = l' := Option.some.inj (hl₁.symm.trans hearse)
    have hys : pData ∉ ys.map Prod.snd := by
      rw [List.map_append, List.map_cons] at hnodup
      exact (List.nodup_cons.mp (List.nodup_append.mp hnodup).2.1).1
    have hkeep : ∀ {zs : List (ℕ × ℕ)}, pData ∉ zs.map Prod.snd →
        zs.filter (fun c ↦ decide (c.2 ≠ pData)) = zs := by
      intro zs hzs
      refine List.filter_eq_self.mpr fun c hc ↦ decide_eq_true ?_
      rintro rfl
      exact hzs (List.mem_map_of_mem hc)
    rw [List.filter_append, hkeep hnot, List.filter_cons_of_neg (by simp), hkeep hys]
    exact hcells
  · rw [h.earse_absent hmem hfuel] at hearse
    obtain rfl : l = l' := Option.some.inj hearse
    have hkeep : cells.filter (fun c ↦ decide (c.2 ≠ pData)) = cells := by
      refine List.filter_eq_self.mpr fun c hc ↦ decide_eq_true ?_
      rintro rfl
      exact hmem (List.mem_map_of_mem hc)
    rwa [hkeep]

/-- The first node with the datum is taken out of the list. -/
theorem Holds.earse (h : l.Holds ds) (pData : ℕ) : ∃ l', l.listEarseData pData = some l' ∧
    l'.Holds (ds.erase pData) ∧ l'.nSize = if pData ∈ ds then l.nSize - 1 else l.nSize := by
  have hfuel := h.toNat_size
  obtain ⟨⟨cells, hcells, rfl⟩, hsize⟩ := h
  rw [List.length_map] at hsize hfuel
  by_cases hmem : pData ∈ cells.map Prod.snd
  · obtain ⟨xs, a, ys, rfl, hnot⟩ := mem_split_first hmem
    obtain ⟨l', hl', hcells', hsize', -⟩ := hcells.earse hnot hfuel
    rw [if_pos hmem, erase_map_snd hnot]
    refine ⟨l', hl', ⟨⟨_, hcells', rfl⟩, ?_⟩, hsize'⟩
    simp only [List.length_append, List.length_cons, List.length_map] at hsize ⊢
    omega
  · rw [List.erase_of_not_mem hmem, if_neg hmem]
    exact ⟨l, hcells.earse_absent hmem hfuel, ⟨⟨cells, hcells, rfl⟩, by simpa using hsize⟩, rfl⟩

end ListHandle

end OsaBase
