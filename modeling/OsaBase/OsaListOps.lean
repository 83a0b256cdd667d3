import OsaBase.OsaListRuns

/-!
# Pushes without memory and `list_pop_back`

The calls on a list where `malloc` may fail, and the one that leaves the pointers leading to a node
it has freed. A push that finds no memory leaves the list alone, but `list_push_back` has counted
the node before it asks for it. After `list_pop_back` the pointers lead to no end any more, whatever
is called afterwards.
-/

open Chain Transition

namespace OsaBase

/-- What a call returns: the new node or `NULL`, the data that was popped or `NULL`, a status. -/
inductive ListResult
  | node (pCurNode : Option ℕ)
  | data (pdata : Option ℕ)
  | status (ret : ℤ)
  deriving DecidableEq, Repr

/-- A call that changes a list; `mem` is what `malloc` returns. -/
inductive ListOp
  | pushFront (mem : Option ℕ) (pData : ℕ)
  | pushBack (mem : Option ℕ) (pData : ℕ)
  | popFront
  | popBack
  | earseData (pData : ℕ)
  | clear
  deriving DecidableEq, Repr

namespace ListMem

/-- `list_pop_back`: the node before the last one is not looked up. -/
def listPopBack (m : ListMem) : Option ListMem :=
  if m.list.nSize = 0 then some { m with returned := m.returned ++ [none] }
  else (ListHandle.findNodeTail m.list.nodes m.list.nSize.toNat m.list.next).bind fun a ↦
    (m.list.nodes a).bind fun pdataNode ↦ (m.free a).map fun m ↦
      { m with list.nSize := m.list.nSize - 1, returned := m.returned ++ [some pdataNode.data] }

/-- The nodes that `malloc` has returned, with the outcome of one more. -/
def record (m : ListMem) (mem : Option ℕ) (l : ListHandle) : ListMem :=
  { m with list := l, mallocs := m.mallocs ++ mem.toList }

def listOp (m : ListMem) : ListOp → Option (ListMem × ListResult)
  | .pushFront mem pData => some (m.record mem (m.list.listPushFront mem pData), .node mem)
  | .pushBack mem pData =>
    (m.list.listPushBack mem pData).map fun l ↦ (m.record mem l, .node mem)
  | .popFront => m.listPopFront.map fun m ↦ (m, .data (m.returned.getLast?.join))
  | .popBack => m.listPopBack.map fun m ↦ (m, .data (m.returned.getLast?.join))
  | .earseData pData => (m.listEarseData pData).map fun m ↦ (m, .status 0)
  | .clear => m.listClear.map fun m ↦ (m, .status 0)

def opStep (m : ListMem) (op : ListOp) : Option ListMem := (m.listOp op).map Prod.fst

end ListMem

/-- The node that the call allocates. -/
def ListOp.mem : ListOp → Option ℕ
  | .pushFront mem _ | .pushBack mem _ => mem
  | .popFront | .popBack | .earseData _ | .clear => none

/-- `malloc` fails or returns memory that is not in use. -/
def Mallocs (m : ListMem) (op : ListOp) : Prop :=
  ∀ a ∈ op.mem, m.list.nodes a = none ∧ a ≠ m.head

instance (m : ListMem) (op : ListOp) : Decidable (Mallocs m op) :=
  inferInstanceAs (Decidable (∀ a ∈ op.mem, m.list.nodes a = none ∧ a ≠ m.head))

/-! ## Calls that come to the end of the list -/

namespace ListHandle

variable {l l' : ListHandle} {nodes : ℕ → Option DataNode} {p : Option ℕ} {k a pData : ℕ}

/-- The pointers lead to no end. -/
def Endless (l : ListHandle) : Prop := ∀ cells, ¬ Segment l.nodes l.next cells none

theorem findNodeTail_whole (h : findNodeTail nodes k p = some a) :
    ∃ xs d, Segment nodes p (xs ++ [(a, d)]) none := by
  induction k generalizing p with
  | zero => cases h
  | succ k ih =>
      simp only [findNodeTail] at h
      obtain ⟨b, rfl, hb⟩ := Option.bind_eq_some_iff.mp h
      obtain ⟨⟨d, next⟩, hnode, htail⟩ := Option.bind_eq_some_iff.mp hb
      cases next with
      | none =>
          obtain rfl : b = a := Option.some.inj htail
          exact ⟨[], d, rfl, none, hnode, rfl⟩
      | some c =>
          obtain ⟨xs, e, hrest⟩ := ih htail
          exact ⟨(b, d) :: xs, e, rfl, some c, hnode, hrest⟩

theorem traverse_whole {ds : List ℕ} (h : l.traverse k p = some ds) :
    ∃ cells, Segment l.nodes p cells none := by
  induction k generalizing p ds with
  | zero =>
      simp only [traverse] at h
      split at h
      · next hend => exact ⟨[], hend⟩
      · cases h
  | succ k ih =>
      simp only [traverse] at h
      split at h
      · next hend => exact ⟨[], hend⟩
      · obtain ⟨b, rfl, hb⟩ := Option.bind_eq_some_iff.mp h
        obtain ⟨⟨d, next⟩, hnode, hd⟩ := Option.bind_eq_some_iff.mp hb
        obtain ⟨next', hnext, hds⟩ := Option.bind_eq_some_iff.mp hd
        rw [listNext, hnode, Option.map_some] at hnext
        obtain rfl : next = next' := Option.some.inj hnext
        obtain ⟨ds', hrest, -⟩ := Option.map_eq_some_iff.mp hds
        obtain ⟨cells, hcells⟩ := ih hrest
        exact ⟨(b, d) :: cells, rfl, next, hnode, hcells⟩

theorem Endless.findNodeTail_eq_none (h : l.Endless) : findNodeTail l.nodes k l.next = none := by
  rw [Option.eq_none_iff_forall_ne_some]
  intro a ha
  obtain ⟨xs, d, hwhole⟩ := findNodeTail_whole ha
  exact h _ hwhole

/-- No traversal of such a list ends. -/
theorem Endless.traverse_eq_none (h : l.Endless) : l.traverse k l.listBegin = none := by
  rw [Option.eq_none_iff_forall_ne_some]
  intro ds hds
  obtain ⟨cells, hwhole⟩ := traverse_whole hds
  exact h _ hwhole

theorem Endless.pushFront (h : l.Endless) (mem : Option ℕ) (pData : ℕ) :
    (l.listPushFront mem pData).Endless := by
  cases mem with
  | none => exact h
  | some a =>
      intro cells hwhole
      obtain ⟨ys, hys⟩ := Segment.of_push hwhole
      exact h ys hys

theorem Endless.pushBack {mem : Option ℕ} (h : l.Endless)
    (hpush : l.listPushBack mem pData = some l') : l'.Endless := by
  simp only [listPushBack] at hpush
  split at hpush
  · cases hpush
    exact h.pushFront mem pData
  · rw [h.findNodeTail_eq_none] at hpush
    cases hpush

/-- The first node goes. -/
theorem Endless.unlink_first {d : ℕ} {next : Option ℕ} {n : ℤ} (h : l.Endless)
    (hfirst : l.next = some a) (hnode : l.nodes a = some ⟨d, next⟩) :
    (⟨next, n, Function.update l.nodes a none⟩ : ListHandle).Endless := by
  intro cells hwhole
  exact h ((a, d) :: cells) ⟨hfirst, next, hnode, hwhole.of_free⟩

/-- Where the loop of `list_earse_data` stands: `ptrPrvNode` leads to the node. -/
def At (l : ListHandle) : Option ℕ → Option ℕ → Prop
  | none, pNode => pNode = l.next
  | some b, pNode => ∃ d, l.nodes b = some ⟨d, pNode⟩

theorem Endless.earseLoop {prv : Option ℕ} (h : l.Endless) (hat : l.At prv p)
    (hloop : l.listEarseLoop pData k prv p = some l') : l'.Endless := by
  induction k generalizing prv p with
  | zero =>
      cases p with
      | none =>
          obtain rfl : l = l' := Option.some.inj hloop
          exact h
      | some a => cases hloop
  | succ k ih =>
      cases p with
      | none =>
          obtain rfl : l = l' := Option.some.inj hloop
          exact h
      | some a =>
          simp only [listEarseLoop] at hloop
          obtain ⟨⟨d, next⟩, hnode, hloop⟩ := Option.bind_eq_some_iff.mp hloop
          split at hloop
          · split at hloop
            · next hfirst =>
              cases hloop
              exact h.unlink_first hfirst hnode
            · obtain ⟨b, rfl, hb⟩ := Option.bind_eq_some_iff.mp hloop
              obtain ⟨⟨e, q⟩, hprv, rfl⟩ := Option.map_eq_some_iff.mp hb
              obtain ⟨e', hb⟩ := hat
              rw [hprv] at hb
              cases hb
              intro cells hwhole
              obtain ⟨ys, hys⟩ := Segment.of_unlink hprv hnode hwhole
              exact h ys hys
          · have hat' : l.At (some a) next := ⟨d, hnode⟩
            exact ih hat' hloop

end ListHandle

namespace ListMem

variable {m m' : ListMem} {op : ListOp} {r : ListResult} {cells : List (ℕ × ℕ)} {head a : ℕ}

/-- Every call that goes through, with what it is made of. -/
inductive OpEffect (m : ListMem) : ListOp → ListMem → Prop
  | pushFront (mem : Option ℕ) (pData : ℕ) :
      OpEffect m (.pushFront mem pData) (m.record mem (m.list.listPushFront mem pData))
  | pushBack (mem : Option ℕ) (pData : ℕ) (l : ListHandle)
      (h : m.list.listPushBack mem pData = some l) :
      OpEffect m (.pushBack mem pData) (m.record mem l)
  | popFront {m' : ListMem} (h : m.listPopFront = some m') : OpEffect m .popFront m'
  | popBack {m' : ListMem} (h : m.listPopBack = some m') : OpEffect m .popBack m'
  | earseData (pData : ℕ) {m' : ListMem} (h : m.listEarseData pData = some m') :
      OpEffect m (.earseData pData) m'
  | clear {m' : ListMem} (h : m.listClear = some m') : OpEffect m .clear m'

theorem opEffect_of_step (hstep : m.opStep op = some m') : m.OpEffect op m' := by
  obtain ⟨⟨m₁, r⟩, hop, rfl⟩ := Option.map_eq_some_iff.mp hstep
  cases op with
  | pushFront mem pData =>
      cases hop
      exact .pushFront mem pData
  | pushBack mem pData =>
      obtain ⟨l, hl, heq⟩ := Option.map_eq_some_iff.mp hop
      cases heq
      exact .pushBack mem pData l hl
  | popFront =>
      obtain ⟨m₂, hpop, heq⟩ := Option.map_eq_some_iff.mp hop
      cases heq
      exact .popFront hpop
  | popBack =>
      obtain ⟨m₂, hpop, heq⟩ := Option.map_eq_some_iff.mp hop
      cases heq
      exact .popBack hpop
  | earseData pData =>
      obtain ⟨m₂, hearse, heq⟩ := Option.map_eq_some_iff.mp hop
      cases heq
      exact .earseData pData hearse
  | clear =>
      obtain ⟨m₂, hclear, heq⟩ := Option.map_eq_some_iff.mp hop
      cases heq
      exact .clear hclear

/-- The first node goes, if there is one. -/
theorem listPopFront_cases (h : m.listPopFront = some m') :
    m'.list = m.list ∨ ∃ a d next, m.list.next = some a ∧ m.list.nodes a = some ⟨d, next⟩ ∧
      m'.list = ⟨next, m.list.nSize - 1, Function.update m.list.nodes a none⟩ := by
  simp only [listPopFront] at h
  split at h
  · cases h
    exact Or.inl rfl
  · obtain ⟨a, hfirst, h⟩ := Option.bind_eq_some_iff.mp h
    obtain ⟨⟨d, next⟩, hnode, h⟩ := Option.bind_eq_some_iff.mp h
    obtain ⟨m₁, hfree, rfl⟩ := Option.map_eq_some_iff.mp h
    obtain ⟨-, -, rfl⟩ := Option.map_eq_some_iff.mp hfree
    exact Or.inr ⟨a, d, next, hfirst, hnode, rfl⟩

theorem freeLoop_whole {k : ℕ} {p : Option ℕ} (h : freeLoop k p m = some m') :
    ∃ cells, Segment m.list.nodes p cells none := by
  induction k generalizing m p with
  | zero =>
      cases p with
      | none => exact ⟨[], rfl⟩
      | some a => cases h
  | succ k ih =>
      cases p with
      | none => exact ⟨[], rfl⟩
      | some a =>
          simp only [freeLoop] at h
          obtain ⟨⟨d, next⟩, hnode, h⟩ := Option.bind_eq_some_iff.mp h
          obtain ⟨m₁, hfree, h⟩ := Option.bind_eq_some_iff.mp h
          obtain ⟨-, -, rfl⟩ := Option.map_eq_some_iff.mp hfree
          obtain ⟨cells, hcells⟩ := ih h
          exact ⟨(a, d) :: cells, rfl, next, hnode, hcells.of_free⟩

/-- A list without an end never gets one, and no call on it comes to its last node. -/
theorem endless_step (h : m.list.Endless) (hstep : m.opStep op = some m') : m'.list.Endless := by
  cases opEffect_of_step hstep with
  | pushFront mem pData => exact h.pushFront mem pData
  | pushBack mem pData l hl => exact h.pushBack hl
  | popFront hpop =>
      obtain hsame | ⟨a, d, next, hfirst, hnode, hlist⟩ := listPopFront_cases hpop
      · rwa [hsame]
      · rw [hlist]
        exact h.unlink_first hfirst hnode
  | popBack hpop =>
      simp only [listPopBack] at hpop
      split at hpop
      · cases hpop
        exact h
      · rw [h.findNodeTail_eq_none] at hpop
        cases hpop
  | earseData pData hearse =>
      have hlist := m.listEarseData_list pData
      rw [hearse, Option.map_some] at hlist
      have hat : m.list.At none m.list.next := rfl
      exact h.earseLoop hat hlist.symm
  | clear hclear =>
      obtain ⟨m₁, hloop, -⟩ := Option.map_eq_some_iff.mp hclear
      obtain ⟨cells, hcells⟩ := freeLoop_whole hloop
      exact (h _ hcells).elim

/-! ## What a popped last node leaves behind -/

/-- The last datum is returned and its node freed, but the pointers still lead through the others
to the freed node. -/
structure Dangles (m m' : ListMem) (cells : List (ℕ × ℕ)) (a d : ℕ) : Prop where
  before : m.list.Cells (cells ++ [(a, d)])
  returned : m'.returned = m.returned ++ [some d]
  frees : m'.frees = m.frees ++ [a]
  freed : m'.list.nodes a = none
  segment : Segment m'.list.nodes m'.list.listBegin cells (some a)
  size : m'.list.listSize = m.list.listSize - 1

theorem Dangles.endless {d : ℕ} (h : m.Dangles m' cells a d) : m'.list.Endless :=
  fun _ ↦ h.segment.not_whole h.freed

theorem listPopBack_dangles {d : ℕ} (h : m.list.Cells (cells ++ [(a, d)]))
    (hsize : ((cells ++ [(a, d)]).length : ℤ) ≤ m.list.nSize) :
    ∃ m', m.listPopBack = some m' ∧ m.Dangles m' cells a d := by
  simp only [List.length_append, List.length_cons, List.length_nil] at hsize
  have hne : m.list.nSize ≠ 0 := by omega
  have htail := ListHandle.findNodeTail_of_segment (k := m.list.nSize.toNat) h.segment (by omega)
  obtain ⟨r, hinit, rfl, next, hnode, -⟩ := segment_append.mp h.segment
  have hnot : a ∉ cells.map Prod.fst := by
    intro hmem
    have hnodup := h.nodup
    rw [List.map_append] at hnodup
    exact (List.nodup_append.mp hnodup).2.2 a hmem a (by simp) rfl
  rw [listPopBack, if_neg hne, htail, Option.bind_some, hnode, Option.bind_some, free_eq hnode,
    Option.map_some]
  exact ⟨_, rfl, h, rfl, rfl, Function.update_self .., hinit.update hnot none, rfl⟩

theorem listPopBack_cases {ds : List ℕ} (h : m.list.Holds ds) (hpop : m.listPopBack = some m') :
    (m.list.nSize = 0 ∧ m'.list = m.list) ∨ ∃ cells a d, m.Dangles m' cells a d := by
  by_cases hzero : m.list.nSize = 0
  · rw [listPopBack, if_pos hzero] at hpop
    cases hpop
    exact Or.inl ⟨hzero, rfl⟩
  · obtain ⟨⟨cells, hcells, rfl⟩, hsize⟩ := h
    rw [List.length_map] at hsize
    rcases List.eq_nil_or_concat cells with rfl | ⟨xs, ⟨a, d⟩, rfl⟩
    · have hend : m.list.next = none := hcells.segment
      rw [listPopBack, if_neg hzero, hend] at hpop
      cases hk : m.list.nSize.toNat <;> simp [hk, ListHandle.findNodeTail] at hpop
    · rw [List.concat_eq_append] at hcells hsize
      obtain ⟨m₁, hpop', hdangles⟩ := listPopBack_dangles hcells hsize
      obtain rfl : m₁ = m' := Option.some.inj (hpop'.symm.trans hpop)
      exact Or.inr ⟨xs, a, d, hdangles⟩

/-! ## The lists of every run -/

theorem holds_popFront {ds : List ℕ} (h : m.list.Holds ds) (hpop : m.listPopFront = some m') :
    ∃ ds', m'.list.Holds ds' := by
  obtain hsame | ⟨a, d, next, hfirst, hnode, hlist⟩ := listPopFront_cases hpop
  · exact ⟨ds, hsame ▸ h⟩
  · obtain ⟨⟨cells, hcells, rfl⟩, hsize⟩ := h
    cases cells with
    | nil =>
        have hend : m.list.next = none := hcells.segment
        rw [hfirst] at hend
        cases hend
    | cons x cells =>
        obtain ⟨b, e⟩ := x
        obtain ⟨hb, next', hnode', hrest⟩ := hcells.segment
        obtain rfl : a = b := Option.some.inj (hfirst.symm.trans hb)
        rw [hnode] at hnode'
        cases hnode'
        have hnodup := List.nodup_cons.mp hcells.nodup
        rw [hlist]
        refine ⟨_, ⟨cells, ⟨hrest.update hnodup.1 none, hnodup.2⟩, rfl⟩, ?_⟩
        simp only [List.length_map, List.length_cons] at hsize ⊢
        omega

/-- A call that goes through keeps a list with an end, or leaves it without one. -/
theorem holds_step {ds : List ℕ} (h : m.list.Holds ds) (hmalloc : Mallocs m op)
    (hstep : m.opStep op = some m') : (∃ ds', m'.list.Holds ds') ∨ m'.list.Endless := by
  cases opEffect_of_step hstep with
  | pushFront mem pData =>
      cases mem with
      | none => exact Or.inl ⟨ds, h⟩
      | some a =>
          obtain ⟨⟨cells, hcells, rfl⟩, hsize⟩ := h
          refine Or.inl ⟨_, ⟨_, hcells.pushFront (hmalloc a rfl).1 pData, rfl⟩, ?_⟩
          simp only [ListHandle.listPushFront, record, List.map_cons, List.length_cons]
          omega
  | pushBack mem pData l hl =>
      obtain ⟨hnone, hsome⟩ := h.push (fun a ha ↦ (hmalloc a ha).1) hl
      cases mem with
      | none => exact Or.inl ⟨ds, (hnone rfl).1⟩
      | some a => exact Or.inl ⟨_, (hsome (Option.some_ne_none a)).1⟩
  | popFront hpop => exact Or.inl (holds_popFront h hpop)
  | popBack hpop =>
      rcases listPopBack_cases h hpop with ⟨-, hsame⟩ | ⟨cells, a, d, hdangles⟩
      · exact Or.inl ⟨ds, hsame ▸ h⟩
      · exact Or.inr hdangles.endless
  | earseData pData hearse =>
      obtain ⟨l, hl, hholds, -⟩ := h.earse pData
      have hlist := m.listEarseData_list pData
      rw [hearse, Option.map_some] at hlist
      exact Or.inl ⟨_, Option.some.inj (hlist.trans hl) ▸ hholds⟩
  | clear hclear =>
      obtain ⟨m₁, -, rfl⟩ := Option.map_eq_some_iff.mp hclear
      exact Or.inl ⟨[], ⟨[], ⟨rfl, List.nodup_nil⟩, rfl⟩, Int.le_refl 0⟩

theorem holds_or_endless (h : Reach opStep Mallocs (created head) m) :
    (∃ ds, m.list.Holds ds) ∨ m.list.Endless := by
  apply h.invariant (I := fun m : ListMem ↦ (∃ ds, m.list.Holds ds) ∨ m.list.Endless)
  · exact Or.inl ⟨[], ListHandle.listCreate_holds⟩
  · rintro a op b (⟨ds, hds⟩ | hendless) hok hstep
    · exact holds_step hds hok hstep
    · exact Or.inr (endless_step hendless hstep)

/-! ## `list_pop_back` -/

theorem popBack_dangles (h : Reach opStep Mallocs (created head) m) (hne : m.list.nSize ≠ 0)
    (hstep : m.opStep .popBack = some m') : ∃ cells a d, m.Dangles m' cells a d := by
  have hpop : m.listPopBack = some m' := by
    cases opEffect_of_step hstep with
    | popBack hpop => exact hpop
  rcases holds_or_endless h with ⟨ds, hds⟩ | hendless
  · exact (listPopBack_cases hds hpop).resolve_left fun hzero ↦ hne hzero.1
  · rw [listPopBack, if_neg hne, hendless.findNodeTail_eq_none] at hpop
    cases hpop

/-- What popping the last datum is for. -/
structure PopsBack (m m' : ListMem) (ds : List ℕ) (d : ℕ) : Prop where
  before : m.list.traverse (ds.length + 1) m.list.listBegin = some (ds ++ [d])
  call : m.listOp .popBack = some (m', .data (some d))
  traversal : m'.list.traverse ds.length m'.list.listBegin = some ds
  size : m'.list.listSize = ds.length

theorem not_popsBack (h : Reach opStep Mallocs (created head) m) (hne : m.list.nSize ≠ 0)
    (ds : List ℕ) (d : ℕ) : ¬ m.PopsBack m' ds d := by
  intro hpops
  have hstep : m.opStep .popBack = some m' := by rw [opStep, hpops.call, Option.map_some]
  obtain ⟨cells, a, e, hdangles⟩ := popBack_dangles h hne hstep
  have hnone := hdangles.endless.traverse_eq_none (k := ds.length)
  rw [hpops.traversal] at hnone
  cases hnone

/-- `list_pop_back` pops the last datum of no list that is not empty: if the call comes to an end,
the pointers lead to the freed node, and no traversal comes to its end in any continuation. -/
theorem list_pop_back_dangles (h : Reach opStep Mallocs (created head) m)
    (hne : m.list.nSize ≠ 0) :
    (∀ m' ds d, ¬ m.PopsBack m' ds d) ∧
    ∀ m', m.opStep .popBack = some m' → (∃ cells a d, m.Dangles m' cells a d) ∧
      ∀ m'', Reach opStep Mallocs m' m'' → ∀ k, m''.list.traverse k m''.list.listBegin = none := by
  refine ⟨fun m' ds d ↦ not_popsBack h hne ds d, fun m' hstep ↦ ?_⟩
  obtain ⟨cells, a, d, hdangles⟩ := popBack_dangles h hne hstep
  refine ⟨⟨cells, a, d, hdangles⟩, fun m'' hreach k ↦ ?_⟩
  have hendless : m''.list.Endless :=
    hreach.invariant hdangles.endless fun _ _ _ ha _ hstep ↦ endless_step ha hstep
  exact hendless.traverse_eq_none

/-- The last of two data is popped. -/
theorem list_pop_back_dangles_run : ∃ m m', Reach opStep Mallocs (created 1) m ∧
    m.list.contents = [5, 6] ∧ m.opStep .popBack = some m' ∧
    ∀ m'', Reach opStep Mallocs m' m'' → ∀ k, m''.list.traverse k m''.list.listBegin = none := by
  obtain ⟨m, hreach, hp⟩ := Reach.exists_of_exec opStep Mallocs (created 1)
    [.pushBack (some 10) 5, .pushBack (some 11) 6]
    (fun m ↦ decide (m.list.nSize ≠ 0 ∧ m.list.contents = [5, 6]) && (m.opStep .popBack).isSome)
    (by decide)
  obtain ⟨hdec, hsome⟩ := Bool.and_eq_true_iff.mp hp
  obtain ⟨hne, hcontents⟩ := of_decide_eq_true hdec
  obtain ⟨m', hm'⟩ := Option.isSome_iff_exists.mp hsome
  exact ⟨m, m', hreach, hcontents, hm', ((list_pop_back_dangles hreach hne).2 m' hm').2⟩

/-- A list of one datum, whose head leads to the freed node. -/
theorem list_pop_back_misses : ¬ ∀ m, Reach opStep Mallocs (created 1) m → m.list.nSize ≠ 0 →
    ∃ m' ds d, m.PopsBack m' ds d := by
  intro hall
  obtain ⟨m, hreach, hp⟩ := Reach.exists_of_exec opStep Mallocs (created 1)
    [.pushBack (some 10) 5] (fun m ↦ decide (m.list.nSize ≠ 0)) (by decide)
  have hne := of_decide_eq_true hp
  obtain ⟨m', ds, d, hpops⟩ := hall m hreach hne
  exact not_popsBack hreach hne ds d hpops

/-! ## Pushes without memory -/

/-- The calls that keep the count: `list_push_back` finds memory or an empty list, and
`list_pop_back` an empty one. -/
def KeepsCount (m : ListMem) : ListOp → Prop
  | .pushBack mem _ => mem ≠ none ∨ m.list.nSize = 0
  | .popBack => m.list.nSize = 0
  | .pushFront _ _ | .popFront | .earseData _ | .clear => True

instance (m : ListMem) (op : ListOp) : Decidable (m.KeepsCount op) :=
  match op with
  | .pushBack mem _ => inferInstanceAs (Decidable (mem ≠ none ∨ m.list.nSize = 0))
  | .popBack => inferInstanceAs (Decidable (m.list.nSize = 0))
  | .pushFront _ _ | .popFront | .earseData _ | .clear => .isTrue trivial

/-- `nSize` is the number of nodes that the pointers lead through. -/
def Counted (m : ListMem) : Prop :=
  ∃ cells, m.list.Cells cells ∧ m.list.listSize = cells.length

theorem record_none (m : ListMem) : m.record none m.list = m := by
  simp [record]

theorem Owns.counted (h : m.Owns head cells) : m.Counted := ⟨cells, h.chain, h.size⟩

theorem Owns.holds (h : m.Owns head cells) : m.list.Holds (cells.map Prod.snd) :=
  ⟨⟨cells, h.chain, rfl⟩, by simp [h.size]⟩

theorem Owns.listPopFront (h : m.Owns head cells) :
    ∃ m' cells', m.listPopFront = some m' ∧ m'.Owns head cells' := by
  cases cells with
  | nil =>
      exact ⟨_, [], h.listPopFront_nil, h.chain, h.size, h.live, h.isHead, h.head, h.account⟩
  | cons x cells =>
      obtain ⟨m', hm', howns', -⟩ := h.listPopFront_cons
      exact ⟨m', cells, hm', howns'⟩

/-- In a list that is counted right no call follows a pointer to no node. -/
theorem Owns.listOp_isSome (h : m.Owns head cells) (op : ListOp) : (m.listOp op).isSome := by
  cases op with
  | pushFront mem pData => rfl
  | pushBack mem pData =>
      obtain ⟨l, hl⟩ := h.holds.push_isSome (by simp [h.size]) mem pData
      rw [listOp, hl]
      rfl
  | popFront =>
      obtain ⟨m', -, hm', -⟩ := h.listPopFront
      rw [listOp, hm']
      rfl
  | popBack =>
      rcases List.eq_nil_or_concat cells with rfl | ⟨xs, ⟨a, d⟩, rfl⟩
      · rw [listOp, listPopBack, if_pos (by simpa using h.size)]
        rfl
      · rw [List.concat_eq_append] at h
        obtain ⟨m', hm', -⟩ := listPopBack_dangles h.chain (Int.le_of_eq h.size.symm)
        rw [listOp, hm']
        rfl
  | earseData pData =>
      obtain ⟨m', -, hm', -⟩ := h.listEarseData pData
      rw [listOp, hm']
      rfl
  | clear =>
      obtain ⟨m', hm', -⟩ := h.listClear
      rw [listOp, hm']
      rfl

/-- A push that returns `NULL` leaves everything as it was. -/
theorem failed_push (hkeeps : m.KeepsCount op) (h : m.listOp op = some (m', .node none)) :
    m' = m := by
  cases op with
  | pushFront mem pData =>
      cases h
      exact record_none m
  | pushBack mem pData =>
      obtain ⟨l, hl, heq⟩ := Option.map_eq_some_iff.mp h
      cases heq
      rw [ListHandle.listPushBack, if_pos (hkeeps.resolve_left (by simp))] at hl
      cases hl
      exact record_none m
  | popFront | popBack | earseData | clear =>
      obtain ⟨m₁, -, heq⟩ := Option.map_eq_some_iff.mp h
      cases heq

theorem Owns.step (h : m.Owns head cells) (hmalloc : Mallocs m op) (hkeeps : m.KeepsCount op)
    (hstep : m.opStep op = some m') : ∃ cells', m'.Owns head cells' := by
  cases opEffect_of_step hstep with
  | pushFront mem pData =>
      cases mem with
      | none => exact ⟨cells, (record_none m).symm ▸ h⟩
      | some a =>
          obtain ⟨ha, hne⟩ := hmalloc a rfl
          exact ⟨_, h.listPushFront ha (h.isHead ▸ hne) pData⟩
  | pushBack mem pData l hl =>
      cases mem with
      | none =>
          have hop : m.listOp (.pushBack none pData) = some (m.record none l, .node none) := by
            rw [listOp, hl, Option.map_some]
          exact ⟨cells, (failed_push hkeeps hop).symm ▸ h⟩
      | some a =>
          obtain ⟨ha, hne⟩ := hmalloc a rfl
          have hpush : m.listPushBack a pData = some (m.record (some a) l) := by
            rw [ListMem.listPushBack, hl]
            rfl
          exact ⟨_, (h.listPushBack ha (h.isHead ▸ hne) hpush).1⟩
  | popFront hpop =>
      obtain ⟨m₁, cells', hm₁, howns⟩ := h.listPopFront
      obtain rfl : m₁ = m' := Option.some.inj (hm₁.symm.trans hpop)
      exact ⟨cells', howns⟩
  | popBack hpop =>
      have hzero : m.list.nSize = 0 := hkeeps
      rw [listPopBack, if_pos hzero] at hpop
      cases hpop
      exact ⟨cells, h.chain, h.size, h.live, h.isHead, h.head, h.account⟩
  | earseData pData hearse =>
      obtain ⟨m₁, cells', hm₁, howns, -⟩ := h.listEarseData pData
      obtain rfl : m₁ = m' := Option.some.inj (hm₁.symm.trans hearse)
      exact ⟨cells', howns⟩
  | clear hclear =>
      obtain ⟨m₁, hm₁, howns, -⟩ := h.listClear
      obtain rfl : m₁ = m' := Option.some.inj (hm₁.symm.trans hclear)
      exact ⟨[], howns⟩

/-- Any other call leaves a count that is wrong. -/
theorem Owns.not_counted (h : m.Owns head cells) (hkeeps : ¬ m.KeepsCount op)
    (hstep : m.opStep op = some m') : ¬ m'.Counted := by
  rintro ⟨cells', hcells', hsize'⟩
  cases opEffect_of_step hstep with
  | pushBack mem pData l hl =>
      simp only [KeepsCount, not_or, not_not] at hkeeps
      obtain ⟨rfl, hne⟩ := hkeeps
      rw [ListHandle.listPushBack, if_neg hne] at hl
      obtain ⟨tail, -, hins⟩ := Option.bind_eq_some_iff.mp hl
      obtain rfl := Option.some.inj hins
      obtain rfl : cells' = cells := hcells'.segment.unique h.chain.segment
      have hsize := h.size
      simp only [record, ListHandle.listSize] at hsize'
      omega
  | popBack hpop =>
      rcases listPopBack_cases h.holds hpop with ⟨hzero, -⟩ | ⟨xs, a, d, hdangles⟩
      · exact hkeeps hzero
      · exact hdangles.endless _ hcells'.segment
  | pushFront | popFront | earseData | clear => exact hkeeps trivial

/-- In every run of calls that keep the count a push that returns `NULL` changes nothing, `nSize`
is the number of nodes and no call follows a pointer to no node; any other call leaves a wrong
count. -/
theorem list_count_kept_iff (head : ℕ) :
    (∀ m, Reach opStep (fun m op ↦ Mallocs m op ∧ m.KeepsCount op) (created head) m →
      m.Counted ∧ (∀ op, (m.listOp op).isSome) ∧
      ∀ op m', m.KeepsCount op → m.listOp op = some (m', .node none) → m' = m) ∧
    ∀ m op m', Reach opStep (fun m op ↦ Mallocs m op ∧ m.KeepsCount op) (created head) m →
      ¬ m.KeepsCount op → m.opStep op = some m' → ¬ m'.Counted := by
  have howns : ∀ m, Reach opStep (fun m op ↦ Mallocs m op ∧ m.KeepsCount op) (created head) m →
      ∃ cells, m.Owns head cells := by
    intro m h
    apply h.invariant (I := fun m : ListMem ↦ ∃ cells, m.Owns head cells)
    · exact ⟨[], created_owns head⟩
    · rintro a op b ⟨cells, hcells⟩ ⟨hmalloc, hkeeps⟩ hstep
      exact hcells.step hmalloc hkeeps hstep
  constructor
  · intro m h
    obtain ⟨cells, hcells⟩ := howns m h
    exact ⟨hcells.counted, hcells.listOp_isSome, fun op m' hkeeps hop ↦ failed_push hkeeps hop⟩
  · intro m op m' h hkeeps hstep
    obtain ⟨cells, hcells⟩ := howns m h
    exact hcells.not_counted hkeeps hstep

/-- A failed `list_push_back` is counted; when the one datum is popped, the next
`list_pop_front` follows a `NULL` pointer. -/
theorem list_failed_push_counted : ¬ ∀ m, Reach opStep Mallocs (created 1) m →
    m.Counted ∧ (∀ op, (m.listOp op).isSome) ∧
    ∀ op m', m.listOp op = some (m', .node none) → m' = m := by
  intro hall
  obtain ⟨m, hreach, hp⟩ := Reach.exists_of_exec opStep Mallocs (created 1)
    [.pushBack (some 10) 5, .pushBack none 6, .popFront]
    (fun m ↦ (m.listOp .popFront).isNone) (by decide)
  have hsome := (hall m hreach).2.1 .popFront
  rw [Option.isNone_iff_eq_none.mp hp] at hsome
  cases hsome

end ListMem

end OsaBase
