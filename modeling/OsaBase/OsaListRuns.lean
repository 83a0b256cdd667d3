import OsaBase.Lib.Runs
import OsaBase.OsaList

/-!
# Runs of list calls

The list with the memory of its nodes: each node that `malloc` returned and each address that was
passed to `free`. The other mutators of `osa_list.c` are here, and every sequence of calls keeps
the list that a sequence of data describes.
-/

open Chain Transition

namespace OsaBase

/-- `head` is the address of the `HeadNode`; `returned` is what `list_pop_front` returned. -/
structure ListMem where
  head : ℕ
  list : ListHandle
  mallocs : List ℕ
  frees : List ℕ
  returned : List (Option ℕ)

namespace ListMem

/-- A list from `list_create`. -/
def created (head : ℕ) : ListMem := ⟨head, listCreate, [], [], []⟩

/-- `free` of a node, which is an error if the node is not allocated. -/
def free (m : ListMem) (a : ℕ) : Option ListMem :=
  (m.list.nodes a).map fun _ ↦
    { m with list.nodes := Function.update m.list.nodes a none, frees := m.frees ++ [a] }

/-- `list_push_front`; `a` is what `malloc` returns. -/
def listPushFront (m : ListMem) (a pData : ℕ) : ListMem :=
  { m with list := m.list.listPushFront (some a) pData, mallocs := m.mallocs ++ [a] }

def listPushBack (m : ListMem) (a pData : ℕ) : Option ListMem :=
  (m.list.listPushBack (some a) pData).map fun l ↦
    { m with list := l, mallocs := m.mallocs ++ [a] }

def listPopFront (m : ListMem) : Option ListMem :=
  if m.list.nSize = 0 then some { m with returned := m.returned ++ [none] }
  else m.list.next.bind fun a ↦ (m.list.nodes a).bind fun pdataNode ↦
    (free { m with list.next := pdataNode.next } a).map fun m ↦
      { m with list.nSize := m.list.nSize - 1, returned := m.returned ++ [some pdataNode.data] }

/-- The loop of `list_earse_data`, with its call of `free`. -/
def listEarseLoop (m : ListMem) (pData : ℕ) : ℕ → Option ℕ → Option ℕ → Option ListMem
  | _, _, none => some m
  | 0, _, some _ => none
  | k + 1, ptrPrvNode, some a => (m.list.nodes a).bind fun node ↦
    if node.data = pData then
      let unlinked : Option ListMem :=
        if m.list.next = some a then some { m with list.next := node.next }
        else ptrPrvNode.bind fun b ↦ (m.list.nodes b).map fun prv ↦
          { m with
            list.nodes := Function.update m.list.nodes b (some { prv with next := node.next }) }
      unlinked.bind fun m ↦ (m.free a).map fun m ↦ { m with list.nSize := m.list.nSize - 1 }
    else m.listEarseLoop pData k (some a) node.next

def listEarseData (m : ListMem) (pData : ℕ) : Option ListMem :=
  m.listEarseLoop pData m.list.nSize.toNat none m.list.next

/-- The loop of `list_clear` and of `list_destory`. -/
def freeLoop : ℕ → Option ℕ → ListMem → Option ListMem
  | _, none, m => some m
  | 0, some _, _ => none
  | k + 1, some pNodeBak, m => (m.list.nodes pNodeBak).bind fun node ↦
      (m.free pNodeBak).bind fun m ↦ freeLoop k node.next m

def listClear (m : ListMem) : Option ListMem :=
  (freeLoop m.list.nSize.toNat m.list.next m).map fun m ↦
    { m with list.next := none, list.nSize := 0 }

def listDestory (m : ListMem) : Option ListMem :=
  (freeLoop m.list.nSize.toNat m.list.next m).map fun m ↦ { m with frees := m.frees ++ [m.head] }

end ListMem

/-- `list_end` -/
def listEnd : Option ℕ := none

/-- A traversal from a node on: `list_next` until `list_end`, and the data it passes. -/
def ListHandle.traverse (l : ListHandle) : ℕ → Option ℕ → Option (List ℕ)
  | 0, pCurNode => if pCurNode = listEnd then some [] else none
  | k + 1, pCurNode =>
    if pCurNode = listEnd then some []
    else pCurNode.bind fun a ↦ (l.nodes a).bind fun node ↦ (l.listNext a).bind fun pNext ↦
      (l.traverse k pNext).map (node.data :: ·)

/-- A call that changes a list; `a` is the node that `malloc` returns. -/
inductive ListCall
  | pushFront (a pData : ℕ)
  | pushBack (a pData : ℕ)
  | popFront
  | earseData (pData : ℕ)
  | clear
  deriving DecidableEq

/-- The node that the call allocates. -/
def ListCall.node : ListCall → Option ℕ
  | .pushFront a _ | .pushBack a _ => some a
  | .popFront | .earseData _ | .clear => none

def listStep (m : ListMem) : ListCall → Option ListMem
  | .pushFront a pData => some (m.listPushFront a pData)
  | .pushBack a pData => m.listPushBack a pData
  | .popFront => m.listPopFront
  | .earseData pData => m.listEarseData pData
  | .clear => m.listClear

/-- `malloc` returns memory that is not in use. -/
def Malloc (m : ListMem) (c : ListCall) : Prop :=
  ∀ a ∈ c.node, m.list.nodes a = none ∧ a ≠ m.head

instance (m : ListMem) (c : ListCall) : Decidable (Malloc m c) :=
  inferInstanceAs (Decidable (∀ a ∈ c.node, m.list.nodes a = none ∧ a ≠ m.head))

/-! ## The sequence -/

/-- A sequence of data, and what was taken from its front so far. -/
structure Sequence (D : Type*) where
  items : List D
  returned : List (Option D)

def Sequence.empty (D : Type*) : Sequence D := ⟨[], []⟩

def Sequence.call (s : Sequence ℕ) : ListCall → Sequence ℕ
  | .pushFront _ pData => { s with items := pData :: s.items }
  | .pushBack _ pData => { s with items := s.items ++ [pData] }
  | .popFront => ⟨s.items.tail, s.returned ++ [s.items.head?]⟩
  | .earseData pData => { s with items := s.items.erase pData }
  | .clear => { s with items := [] }

namespace ListMem

/-- The cells are the allocated nodes, and each node that is not a cell any more was freed as often
as it was allocated. -/
structure Owns (m : ListMem) (head : ℕ) (cells : List (ℕ × ℕ)) : Prop where
  chain : m.list.Cells cells
  size : m.list.nSize = cells.length
  live : ∀ a, m.list.nodes a = none ↔ a ∉ cells.map Prod.fst
  isHead : m.head = head
  head : head ∉ cells.map Prod.fst
  account : ∀ a, m.mallocs.count a = m.frees.count a + (cells.map Prod.fst).count a

/-- The list is the sequence. -/
def Refines (m : ListMem) (head : ℕ) (s : Sequence ℕ) : Prop :=
  ∃ cells, m.Owns head cells ∧ cells.map Prod.snd = s.items ∧ m.returned = s.returned

variable {m m' : ListMem} {cells : List (ℕ × ℕ)} {s : Sequence ℕ} {head a pData : ℕ}

theorem created_owns (head : ℕ) : (created head).Owns head [] where
  chain := ListHandle.listCreate_cells
  size := rfl
  live := fun a ↦ by simp [created, listCreate]
  isHead := rfl
  head := by simp
  account := fun a ↦ by simp [created]

theorem Owns.toNat_size (h : m.Owns head cells) : m.list.nSize.toNat = cells.length := by
  have := h.size
  omega

theorem Owns.listPushFront (h : m.Owns head cells) (ha : m.list.nodes a = none) (hne : a ≠ head)
    (pData : ℕ) : (m.listPushFront a pData).Owns head ((a, pData) :: cells) where
  chain := h.chain.pushFront ha pData
  size := by simp [ListMem.listPushFront, ListHandle.listPushFront, h.size]
  live := fun c ↦ by
    by_cases hc : c = a <;> simp [ListMem.listPushFront, ListHandle.listPushFront, hc, h.live]
  isHead := h.isHead
  head := by
    rw [List.map_cons, List.mem_cons, not_or]
    exact ⟨Ne.symm hne, h.head⟩
  account := fun c ↦ by
    have := h.account c
    simp only [ListMem.listPushFront, List.count_append, List.map_cons, List.count_cons,
      List.count_nil]
    omega

theorem Owns.listPushBack (h : m.Owns head cells) (ha : m.list.nodes a = none) (hne : a ≠ head)
    (hpush : m.listPushBack a pData = some m') :
    m'.Owns head (cells ++ [(a, pData)]) ∧ m'.returned = m.returned := by
  obtain ⟨l, hl, rfl⟩ := Option.map_eq_some_iff.mp hpush
  obtain ⟨hcells, hsize, hlive⟩ := h.chain.pushBack (Int.le_of_eq h.size.symm) ha hl
  refine ⟨⟨hcells, by simp [hsize, h.size], fun c ↦ ?_, h.isHead, ?_, fun c ↦ ?_⟩, rfl⟩
  · rw [hlive, h.live, List.map_append, List.mem_append, not_or, and_comm]
    simp
  · rw [List.map_append, List.mem_append, not_or]
    exact ⟨h.head, by simpa using Ne.symm hne⟩
  · have := h.account c
    simp only [List.count_append, List.map_append, List.map_cons, List.map_nil]
    omega

/-- One cell less, and its node was freed. -/
theorem Owns.remove (xs : List (ℕ × ℕ)) {ys : List (ℕ × ℕ)} {d : ℕ}
    (h : m.Owns head (xs ++ (a, d) :: ys))
    (hchain : m'.list.Cells (xs ++ ys)) (hsize : m'.list.nSize = m.list.nSize - 1)
    (hlive : ∀ c, m'.list.nodes c = none ↔ c = a ∨ m.list.nodes c = none)
    (hhead : m'.head = m.head) (hmallocs : m'.mallocs = m.mallocs)
    (hfrees : m'.frees = m.frees ++ [a]) : m'.Owns head (xs ++ ys) := by
  have hcells := h.chain.nodup
  rw [List.map_append, List.map_cons, List.nodup_middle, List.nodup_cons, ← List.map_append]
    at hcells
  refine ⟨hchain, ?_, fun c ↦ ?_, hhead.trans h.isHead, ?_, fun c ↦ ?_⟩
  · have := h.size
    simp only [List.length_append, List.length_cons] at this ⊢
    omega
  · rw [hlive, h.live]
    by_cases hc : c = a
    · subst hc
      simpa using hcells.1
    · simp [hc]
  · have := h.head
    simp only [List.map_append, List.map_cons, List.mem_append, List.mem_cons, not_or] at this ⊢
    exact ⟨this.1, this.2.2⟩
  · have := h.account c
    rw [hmallocs, hfrees]
    simp only [List.map_append, List.map_cons, List.count_append, List.count_cons, List.count_nil]
      at this ⊢
    omega

theorem free_eq {d : ℕ} {next : Option ℕ} (h : m.list.nodes a = some ⟨d, next⟩) :
    m.free a = some
      { m with list.nodes := Function.update m.list.nodes a none, frees := m.frees ++ [a] } := by
  rw [free, h, Option.map_some]

theorem Owns.listPopFront_nil (h : m.Owns head []) :
    m.listPopFront = some { m with returned := m.returned ++ [none] } := by
  rw [ListMem.listPopFront, if_pos (by simpa using h.size)]

theorem Owns.listPopFront_cons {d : ℕ} (h : m.Owns head ((a, d) :: cells)) :
    ∃ m', m.listPopFront = some m' ∧ m'.Owns head cells ∧
      m'.returned = m.returned ++ [some d] := by
  obtain ⟨hnext, next, hnode, hrest⟩ := h.chain.segment
  have hsize : m.list.nSize ≠ 0 := by
    rw [h.size, List.length_cons]
    omega
  have hnodup := List.nodup_cons.mp h.chain.nodup
  rw [ListMem.listPopFront, if_neg hsize, hnext, Option.bind_some, hnode, Option.bind_some,
    free_eq (by exact hnode), Option.map_some]
  refine ⟨_, rfl, h.remove [] ⟨hrest.update hnodup.1 _, hnodup.2⟩ rfl ?_ rfl rfl rfl, rfl⟩
  intro c
  by_cases hc : c = a <;> simp [hc]

/-! ## Erasing -/

/-- The loop does to the list what `ListHandle.listEarseLoop` does. -/
theorem listEarseLoop_list (m : ListMem) (pData : ℕ) (k : ℕ) (prv pNode : Option ℕ) :
    (m.listEarseLoop pData k prv pNode).map ListMem.list =
      m.list.listEarseLoop pData k prv pNode := by
  induction k generalizing prv pNode with
  | zero => cases pNode <;> rfl
  | succ k ih =>
      cases pNode with
      | none => rfl
      | some a =>
          simp only [listEarseLoop, ListHandle.listEarseLoop]
          cases hnode : m.list.nodes a with
          | none => rfl
          | some node =>
              simp only [Option.bind_some]
              by_cases hdata : node.data = pData
              · simp only [hdata, if_true]
                by_cases hfirst : m.list.next = some a
                · simp [hfirst, free, hnode]
                · simp only [hfirst, if_false]
                  cases prv with
                  | none => rfl
                  | some b =>
                      cases hprv : m.list.nodes b with
                      | none => simp [hprv]
                      | some node' =>
                          by_cases hab : a = b
                          · subst hab
                            simp [hprv, free]
                          · simp [hprv, free, Function.update_of_ne hab, hnode]
              · simp only [hdata, if_false]
                exact ih ..

theorem listEarseData_list (m : ListMem) (pData : ℕ) :
    (m.listEarseData pData).map ListMem.list = m.list.listEarseData pData :=
  m.listEarseLoop_list pData m.list.nSize.toNat none m.list.next

/-- The loop frees one node or none. -/
theorem listEarseLoop_frees {k : ℕ} {prv pNode : Option ℕ}
    (h : m.listEarseLoop pData k prv pNode = some m') :
    m' = m ∨ ∃ a, m.list.nodes a ≠ none ∧ m'.list.nodes a = none ∧
      m'.frees = m.frees ++ [a] ∧ m'.mallocs = m.mallocs ∧ m'.head = m.head ∧
      m'.returned = m.returned := by
  induction k generalizing prv pNode with
  | zero =>
      cases pNode with
      | none => exact Or.inl (Option.some.inj h).symm
      | some a => cases h
  | succ k ih =>
      cases pNode with
      | none => exact Or.inl (Option.some.inj h).symm
      | some a =>
          simp only [listEarseLoop] at h
          obtain ⟨node, hnode, h⟩ := Option.bind_eq_some_iff.mp h
          split at h
          · obtain ⟨m₁, hm₁, h⟩ := Option.bind_eq_some_iff.mp h
            obtain ⟨m₂, hm₂, rfl⟩ := Option.map_eq_some_iff.mp h
            obtain ⟨-, -, rfl⟩ := Option.map_eq_some_iff.mp hm₂
            refine Or.inr ⟨a, by simp [hnode], by simp, ?_⟩
            split at hm₁
            · obtain rfl := Option.some.inj hm₁
              exact ⟨rfl, rfl, rfl, rfl⟩
            · obtain ⟨b, -, hm₁⟩ := Option.bind_eq_some_iff.mp hm₁
              obtain ⟨prv, -, rfl⟩ := Option.map_eq_some_iff.mp hm₁
              exact ⟨rfl, rfl, rfl, rfl⟩
          · exact ih h

/-- The first cell with the datum goes, if there is one. -/
theorem Owns.listEarseData (h : m.Owns head cells) (pData : ℕ) :
    ∃ m' cells', m.listEarseData pData = some m' ∧ m'.Owns head cells' ∧
      cells'.map Prod.snd = (cells.map Prod.snd).erase pData ∧ m'.returned = m.returned := by
  have hfuel := h.toNat_size
  have hlist := m.listEarseData_list pData
  by_cases hmem : pData ∈ cells.map Prod.snd
  · obtain ⟨xs, a, ys, rfl, hnot⟩ := ListHandle.mem_split_first hmem
    obtain ⟨l', hl', hcells', hsize', hlive'⟩ := h.chain.earse hnot (Nat.le_of_eq hfuel.symm)
    rw [hl'] at hlist
    obtain ⟨m', hm', rfl⟩ := Option.map_eq_some_iff.mp hlist
    have hold : m.list.nodes a ≠ none := by
      rw [Ne, h.live]
      simp
    refine ⟨m', xs ++ ys, hm', ?_, (ListHandle.erase_map_snd hnot).symm, ?_⟩
    all_goals
      rcases listEarseLoop_frees hm' with rfl | ⟨b, hb, hb', hfrees, hmallocs, hhead, hreturned⟩
    · exact (hold ((hlive' a).mpr (Or.inl rfl))).elim
    · obtain rfl : b = a := ((hlive' b).mp hb').resolve_right hb
      exact h.remove _ hcells' hsize' hlive' hhead hmallocs hfrees
    · rfl
    · exact hreturned
  · rw [h.chain.earse_absent hmem (Nat.le_of_eq hfuel.symm)] at hlist
    obtain ⟨m', hm', hsame⟩ := Option.map_eq_some_iff.mp hlist
    refine ⟨m', cells, hm', ?_, (List.erase_of_not_mem hmem).symm, ?_⟩
    all_goals
      rcases listEarseLoop_frees hm' with rfl | ⟨b, hb, hb', -⟩
    · exact h
    · exact (hb (hsame ▸ hb')).elim
    · rfl
    · exact (hb (hsame ▸ hb')).elim

/-! ## Clearing -/

/-- The loop frees the nodes of the cells, each once. -/
theorem freeLoop_eq {p : Option ℕ} {k : ℕ} (h : Segment m.list.nodes p cells none)
    (hnodup : (cells.map Prod.fst).Nodup) (hk : cells.length ≤ k) :
    freeLoop k p m = some
      { m with
        list.nodes := fun c ↦ if c ∈ cells.map Prod.fst then none else m.list.nodes c
        frees := m.frees ++ cells.map Prod.fst } := by
  induction cells generalizing m p k with
  | nil =>
      obtain rfl : p = none := h
      cases k <;> simp [freeLoop]
  | cons x cells ih =>
      obtain ⟨a, d⟩ := x
      obtain ⟨k, rfl⟩ : ∃ j, k = j + 1 := ⟨k - 1, by simp at hk; omega⟩
      obtain ⟨rfl, next, hnode, hrest⟩ := h
      obtain ⟨ha, hnodup⟩ := List.nodup_cons.mp hnodup
      rw [freeLoop, hnode, Option.bind_some, free_eq hnode, Option.bind_some,
        ih (hrest.update ha _) hnodup (by simpa using hk)]
      simp only [List.map_cons, List.mem_cons, List.append_assoc, List.singleton_append,
        Option.some.injEq, ListMem.mk.injEq, ListHandle.mk.injEq, true_and, and_true]
      funext c
      by_cases hc : c = a
      · simp [hc]
      · simp only [hc, false_or, Function.update_of_ne hc]

theorem Owns.freeLoop_eq (h : m.Owns head cells) :
    freeLoop m.list.nSize.toNat m.list.next m = some
      { m with list.nodes := fun _ ↦ none, frees := m.frees ++ cells.map Prod.fst } := by
  rw [ListMem.freeLoop_eq h.chain.segment h.chain.nodup (Nat.le_of_eq h.toNat_size.symm)]
  simp only [Option.some.injEq, ListMem.mk.injEq, ListHandle.mk.injEq, true_and, and_true]
  funext c
  split
  · rfl
  · next hc => exact (h.live c).mpr hc

theorem Owns.listClear (h : m.Owns head cells) :
    ∃ m', m.listClear = some m' ∧ m'.Owns head [] ∧ m'.returned = m.returned := by
  rw [ListMem.listClear, h.freeLoop_eq]
  refine ⟨_, rfl, ⟨⟨rfl, List.nodup_nil⟩, rfl, by simp, h.isHead, by simp, fun c ↦ ?_⟩, rfl⟩
  have := h.account c
  simp only [List.map_nil, List.count_nil, List.count_append]
  omega

/-- `list_destory` frees the nodes and the head. -/
theorem Owns.listDestory (h : m.Owns head cells) :
    m.listDestory = some
      { m with
        list.nodes := fun _ ↦ none
        frees := m.frees ++ cells.map Prod.fst ++ [head] } := by
  rw [ListMem.listDestory, h.freeLoop_eq, ← h.isHead]
  rfl

theorem traverse_of_segment {l : ListHandle} {p : Option ℕ} {k : ℕ}
    (h : Segment l.nodes p cells none) (hk : cells.length ≤ k) :
    l.traverse k p = some (cells.map Prod.snd) := by
  induction cells generalizing p k with
  | nil =>
      obtain rfl : p = none := h
      cases k <;> rfl
  | cons x cells ih =>
      obtain ⟨a, d⟩ := x
      obtain ⟨k, rfl⟩ : ∃ j, k = j + 1 := ⟨k - 1, by simp at hk; omega⟩
      obtain ⟨rfl, next, hnode, hrest⟩ := h
      have hnext : l.listNext a = some next := by simp [ListHandle.listNext, hnode]
      simp [ListHandle.traverse, listEnd, hnode, hnext, ih hrest (by simpa using hk)]

/-! ## Runs -/

/-- Every call goes through and keeps the list that the sequence describes. -/
theorem Refines.step (h : m.Refines head s) (c : ListCall) (hmalloc : Malloc m c) :
    ∃ m', listStep m c = some m' ∧ m'.Refines head (s.call c) := by
  obtain ⟨cells, howns, hitems, hreturned⟩ := h
  cases c with
  | pushFront a pData =>
      obtain ⟨ha, hne⟩ := hmalloc a rfl
      rw [howns.isHead] at hne
      refine ⟨_, rfl, _, howns.listPushFront ha hne pData, ?_, hreturned⟩
      rw [List.map_cons, hitems]
      rfl
  | pushBack a pData =>
      obtain ⟨ha, hne⟩ := hmalloc a rfl
      rw [howns.isHead] at hne
      have hholds : m.list.Holds (cells.map Prod.snd) :=
        ⟨⟨cells, howns.chain, rfl⟩, by simp [howns.size]⟩
      obtain ⟨l, hl⟩ := hholds.push_isSome (by simp [howns.size]) (some a) pData
      have hpush : m.listPushBack a pData = some
          { m with list := l, mallocs := m.mallocs ++ [a] } := by
        rw [ListMem.listPushBack, hl, Option.map_some]
      obtain ⟨howns', hsame⟩ := howns.listPushBack ha hne hpush
      refine ⟨_, hpush, _, howns', ?_, hsame.trans hreturned⟩
      rw [List.map_append, hitems]
      rfl
  | popFront =>
      cases cells with
      | nil =>
          refine ⟨_, howns.listPopFront_nil, [], ⟨howns.chain, howns.size, howns.live, howns.isHead,
            howns.head, howns.account⟩, ?_, ?_⟩
          · simp [Sequence.call, ← hitems]
          · simp [Sequence.call, ← hitems, hreturned]
      | cons x cells =>
          obtain ⟨m', hm', howns', hret⟩ := howns.listPopFront_cons
          refine ⟨m', hm', cells, howns', ?_, ?_⟩
          · simp [Sequence.call, ← hitems]
          · simp [Sequence.call, ← hitems, hreturned, hret]
  | earseData pData =>
      obtain ⟨m', cells', hm', howns', hcells', hret⟩ := howns.listEarseData pData
      refine ⟨m', hm', cells', howns', ?_, hret.trans hreturned⟩
      rw [hcells', hitems]
      rfl
  | clear =>
      obtain ⟨m', hm', howns', hret⟩ := howns.listClear
      exact ⟨m', hm', [], howns', rfl, hret.trans hreturned⟩

theorem Refines.exec {calls : List ListCall} (h : m.Refines head s)
    (hexec : exec listStep Malloc m calls = some m') :
    m'.Refines head (calls.foldl Sequence.call s) := by
  refine exec_simulation (R := (Refines · head)) (fun a x c b hrefines hok hstep ↦ ?_) h hexec
  obtain ⟨m₁, hm₁, hrefines'⟩ := hrefines.step c hok
  rw [hstep] at hm₁
  obtain rfl := Option.some.inj hm₁
  exact hrefines'

/-- The list is the sequence, through the cells. -/
structure Law (m : ListMem) (head : ℕ) (s : Sequence ℕ) (cells : List (ℕ × ℕ)) : Prop where
  segment : Segment m.list.nodes m.list.next cells none
  distinct : (cells.map Prod.fst).Nodup
  live : ∀ a, m.list.nodes a ≠ none ↔ a ∈ cells.map Prod.fst
  items : cells.map Prod.snd = s.items
  returned : m.returned = s.returned
  size : m.list.listSize = s.items.length
  traversal : m.list.traverse m.list.nSize.toNat m.list.listBegin = some s.items
  next : ∀ c, Malloc m c → ∃ m', listStep m c = some m'
  /-- An address was freed once for each time it was allocated, and that of a node once less. -/
  account : ∀ a, m.mallocs.count a = m.frees.count a + if a ∈ cells.map Prod.fst then 1 else 0
  destory : ∃ m', m.listDestory = some m' ∧ (∀ a, m'.list.nodes a = none) ∧
    m'.frees = m.frees ++ (cells.map Prod.fst ++ [head])
  destoryOnce : (cells.map Prod.fst ++ [head]).Nodup

theorem Refines.law (h : m.Refines head s) : ∃ cells, m.Law head s cells := by
  obtain ⟨cells, howns, hitems, hreturned⟩ := id h
  refine ⟨cells, howns.chain.segment, howns.chain.nodup, fun a ↦ ?_, hitems, hreturned, ?_, ?_,
    fun c hc ↦ ?_, fun a ↦ ?_, ⟨_, howns.listDestory, fun a ↦ rfl, ?_⟩, ?_⟩
  · rw [Ne, howns.live, not_not]
  · rw [← hitems, List.length_map]
    exact howns.size
  · rw [← hitems]
    exact traverse_of_segment howns.chain.segment (Nat.le_of_eq howns.toNat_size.symm)
  · obtain ⟨m', hm', -⟩ := h.step c hc
    exact ⟨m', hm'⟩
  · rw [howns.account, howns.chain.nodup.count]
  · rw [List.append_assoc]
  · rw [List.nodup_append]
    refine ⟨howns.chain.nodup, by simp, ?_⟩
    rintro a ha b hb rfl
    exact howns.head (List.mem_singleton.mp hb ▸ ha)

/-- For every sequence of calls on a list from `list_create` the pointers lead from the head
through live, distinct nodes to `NULL`, and these hold the data of the sequence; each removed node
was freed once, and `list_destory` frees the others and the head. -/
theorem list_refines_sequence {head : ℕ} {calls : List ListCall}
    (h : exec listStep Malloc (created head) calls = some m) :
    ∃ cells, m.Law head (calls.foldl Sequence.call (.empty ℕ)) cells := by
  have hcreated : (created head).Refines head (.empty ℕ) := ⟨[], created_owns head, rfl, rfl⟩
  exact (hcreated.exec h).law

/-- A node is unlinked in the middle, and its address is used again. -/
def sampleCalls : List ListCall :=
  [.pushBack 10 5, .pushFront 11 6, .pushBack 12 5, .earseData 5, .pushBack 10 7, .popFront,
    .earseData 9]

theorem list_refines_sequence_run : ∃ m, exec listStep Malloc (created 1) sampleCalls = some m ∧
    ∃ cells, m.Law 1 ⟨[5, 7], [some 6]⟩ cells := by
  have hrun : (exec listStep Malloc (created 1) sampleCalls).isSome := by decide
  obtain ⟨m, hm⟩ := Option.isSome_iff_exists.mp hrun
  exact ⟨m, hm, list_refines_sequence hm⟩

end ListMem

end OsaBase
