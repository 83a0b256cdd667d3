import OsaBase.Server.Invariant

/-!
# The walk of `OSA_server_printfInfo`

`OSA_server_printfInfo` holds `mutex_handle` while it walks the list of the clients; the clients add
and remove themselves under `list_mutex`. So the list can change at every step of the walk.
-/

open Transition

namespace OsaBase.Server

variable {param : ServerParam}

/-- The walk is at the test of its loop, at the read of `client_ip` of the handle of a node, or at
`list_next` of a node. -/
inductive PrintPc
  | idle
  | node (pFindNode : Option ℕ)
  | ip (pFindNode opreateHanle : ℕ)
  | next (pFindNode : ℕ)
  | done
  deriving DecidableEq, Repr

/-- The server with a call of `OSA_server_printfInfo`. For the record: the clients that were counted
and are still in the list, the number of those that are not, and the lengths that the list has had
since the call began. -/
structure PrintState where
  server : State
  pc : PrintPc
  clientCount : ℕ
  visited : List ℕ
  gone : ℕ
  lengths : List ℕ

inductive PrintLabel (param : ServerParam)
  | start
  | print
  | server (l : Label param)

/-- The call holds `mutex_handle`. -/
def PrintPc.locks : PrintPc → Bool
  | .idle | .done => false
  | .node _ | .ip .. | .next _ => true

/-- The step takes `mutex_handle`, if only in `get_server_status` or `set_server_status`. -/
def State.takesMutex (param : ServerParam) (s : State) : Label param → Bool
  | .client i _ => s.threads[i]?.any fun thr ↦ thr.pc == .testServer
  | .server _ =>
    match s.server with
    | .setStar | .test | .readSize .. | .setAbor => true
    | .compare _ _ clientSize => decide (clientSize < param.maxClient)
    | .create | .accept | .alloc .. | .spawn .. | .done | .failed => false
  | .app => s.app == .setStop || s.app == .statusLoop
  | .sendBuf | .sender => false

namespace PrintState

/-- The server makes a step. -/
def setServer (p : PrintState) (s : State) : PrintState :=
  if p.pc.locks then
    let visited := p.visited.filter fun x ↦ decide (x ∈ s.list.contents)
    { p with
      server := s
      visited := visited
      gone := p.gone + (p.visited.length - visited.length)
      lengths := p.lengths ++ [s.list.contents.length] }
  else { p with server := s }

/-- The loop of `OSA_server_printfInfo`. -/
def osaServerPrintfInfo (p : PrintState) : Option PrintState :=
  match p.pc with
  | .idle | .done => none
  | .node none => some { p with pc := .done }
  | .node (some pFindNode) => (p.server.list.nodes pFindNode).map fun pNode ↦
      { p with
        pc := .ip pFindNode pNode.data
        clientCount := p.clientCount + 1
        visited := p.visited ++ [pNode.data] }
  | .ip pFindNode opreateHanle => (p.server.handles opreateHanle).map fun _ ↦
      { p with pc := .next pFindNode }
  | .next pFindNode => (p.server.list.listNext pFindNode).map fun next ↦
      { p with pc := .node next }

end PrintState

/-- The call is made while the server is up. -/
def printStep (param : ServerParam) (p : PrintState) : PrintLabel param → Option PrintState
  | .start =>
    if p.pc.locks = false ∧ p.server.app ≠ .sleep ∧ p.server.app.ending = false then
      some { p with
        pc := .node p.server.list.listBegin
        clientCount := 0
        visited := []
        gone := 0
        lengths := [p.server.list.contents.length] }
    else none
  | .print => p.osaServerPrintfInfo
  | .server l =>
    if p.pc.locks ∧ p.server.takesMutex param l then none
    else (step param p.server l).map p.setServer

def printStart : PrintState := ⟨start, .idle, 0, [], 0, []⟩

/-! ## The law -/

/-- The node that the next step follows. -/
def PrintPc.pNode : PrintPc → Option ℕ
  | .node pFindNode => pFindNode
  | .next pFindNode => some pFindNode
  | .idle | .ip .. | .done => none

/-- What the walk follows is in the list, and its count is a length that the list has had. -/
structure PrintLaw (p : PrintState) : Prop where
  node : ∀ a ∈ p.pc.pNode, ∃ cells, p.server.list.Cells cells ∧ a ∈ cells.map Prod.fst
  handle : ∀ a x, p.pc = .ip a x → x ∈ p.server.list.contents ∧ ∃ h, p.server.handles x = some h
  count : p.pc = .done → p.clientCount ∈ p.lengths

/-- The client whose node the walk is at. -/
def PrintState.client (p : PrintState) : Option ℕ :=
  match p.pc with
  | .node (some a) | .next a => (p.server.list.nodes a).map Chain.Node.data
  | .ip _ x => some x
  | .idle | .node none | .done => none

/-- No client removes the node that the walk is at; and a client that adds itself to the list leaves
the list, with the clients that were counted and are gone, no longer than it once was. -/
def PrintOk (param : ServerParam) (p : PrintState) : PrintLabel param → Prop
  | .server (.client i .next) => ∀ thr ∈ p.server.threads[i]?, thr.pc = .unregister →
      p.client ≠ some thr.handle
  | .server (.client i (.node mem)) => ∀ thr ∈ p.server.threads[i]?, thr.pc = .register →
      p.client ≠ none → ∀ l ∈ p.server.list.listPushBack mem thr.handle,
        p.gone = 0 ∨ ∃ n ∈ p.lengths, l.contents.length + p.gone ≤ n
  | _ => True

instance (p : PrintState) : (l : PrintLabel param) → Decidable (PrintOk param p l)
  | .start | .print | .server .app | .server (.server _) | .server .sendBuf | .server .sender
  | .server (.client _ (.mutex _)) | .server (.client _ (.buf ..)) | .server (.client _ (.turn _))
  | .server (.client _ (.send _)) => inferInstanceAs (Decidable True)
  | .server (.client _ .next) => inferInstanceAs (Decidable (∀ thr ∈ _, _ → _))
  | .server (.client _ (.node _)) =>
    inferInstanceAs (Decidable (∀ thr ∈ _, _ → _ → ∀ l ∈ _, _ ∨ _))

/-! ## What a step of the server does to the list -/

theorem Inv.contents_of_cells {s : State} (hinv : Inv s) {cells : List (ℕ × ℕ)}
    (hcells : s.list.Cells cells) :
    s.list.contents = cells.map Prod.snd ∧ (cells.length : ℤ) ≤ s.list.nSize := by
  obtain ⟨cells', hcells', hsize, -⟩ := hinv.reg.cells
  obtain rfl : cells' = cells := hcells'.segment.unique hcells.segment
  have hholds : s.list.Holds (cells'.map Prod.snd) :=
    ⟨⟨cells', hcells', rfl⟩, by rwa [List.length_map]⟩
  exact ⟨hholds.contents, hsize⟩

theorem Inv.earse_cells (hs : Inv s) {cells : List (ℕ × ℕ)} (hcells : s.list.Cells cells) {x : ℕ}
    {l : ListHandle} (hearse : s.list.listEarseData x = some l) :
    l.Cells (cells.filter fun c ↦ decide (c.2 ≠ x)) := by
  obtain ⟨hcontents, hsize⟩ := hs.contents_of_cells hcells
  have hnodup := hs.reg.nodup
  rw [hcontents] at hnodup
  exact hcells.earse_filter hnodup (by omega) hearse

/-- The list changes only when a client adds or removes itself. -/
inductive ListStep (param : ServerParam) (s : State) : Label param → State → Prop
  | same (l) (s' : State) : s'.list = s.list → ListStep param s l s'
  | push (i mem thr) (s' : State) : s.threads[i]? = some thr → thr.pc = .register →
      s.list.Fresh mem → s.list.listPushBack mem thr.handle = some s'.list →
      ListStep param s (.client i (.node mem)) s'
  | earse (i thr) (s' : State) : s.threads[i]? = some thr → thr.pc = .unregister →
      s.list.listEarseData thr.handle = some s'.list → ListStep param s (.client i .next) s'

theorem list_cases {s s' : State} {l : Label param} (hstep : step param s l = some s') :
    ListStep param s l s' := by
  cases step_cases hstep with
  | app h => exact .same _ _ (by cases h <;> rfl)
  | server a h => exact .same _ _ (by cases h <;> rfl)
  | sender l hl hfree h => exact .same _ _ h.frame.list
  | client i a thr hthr hover h =>
      cases h with
      | push h thr' mem l hh hmove hidle hfresh hpush =>
          cases hmove with
          | register _ hpc => exact .push i mem thr _ hthr hpc hfresh hpush
      | earse h thr' l hh hmove hidle hearse =>
          cases hmove with
          | unregister hpc => exact .earse i thr _ hthr hpc hearse
      | noHandle | fault | none | write | pushCrash | earseCrash | shutdown | close | free =>
          exact .same _ _ rfl

/-! ## The walk -/

/-- The cells `pre` were counted, the cells `post` were not; from the end of the list the walk does
not come back. -/
def PrintPc.At (pre post : List (ℕ × ℕ)) : PrintPc → Prop
  | .node (some a) => ∃ x ys, post = (a, x) :: ys
  | .ip a x => ∃ xs, pre = xs ++ [(a, x)]
  | .next a => ∃ xs x, pre = xs ++ [(a, x)]
  | .node none => True
  | .idle | .done => False

structure WalkInv (p : PrintState) : Prop where
  place : ∃ pre post, p.server.list.Cells (pre ++ post) ∧ pre.map Prod.snd = p.visited ∧
    p.pc.At pre post
  count : p.clientCount = p.visited.length + p.gone
  bound : p.pc ≠ .node none → ∃ n ∈ p.lengths, p.server.list.contents.length + p.gone ≤ n
  between : ∀ n ∈ p.lengths, ∀ m, p.server.list.contents.length ≤ m → m ≤ n → m ∈ p.lengths
  ended : p.pc = .node none → p.clientCount ∈ p.lengths

theorem next_of_cells {l : ListHandle} {xs ys : List (ℕ × ℕ)} {a x : ℕ}
    (h : l.Cells (xs ++ [(a, x)] ++ ys)) : l.listNext a = some (ys.head?.map Prod.fst) := by
  obtain ⟨r, hpre, hys⟩ := Chain.segment_append.mp h.segment
  obtain ⟨r', -, rfl, next, hnode, rfl⟩ := Chain.segment_append.mp hpre
  simp only [ListHandle.listNext, hnode, Option.map_some]
  cases ys with
  | nil => exact congrArg some hys
  | cons y ys => exact congrArg some hys.1

/-- Each step of the walk keeps its place. -/
theorem WalkInv.print {p p' : PrintState} (hs : WalkInv p) (hinv : Inv p.server)
    (hstep : p.osaServerPrintfInfo = some p') :
    (p'.pc.locks = true → WalkInv p') ∧ (p'.pc = .done → p'.clientCount ∈ p'.lengths) := by
  obtain ⟨⟨pre, post, hcells, hvisited, hat⟩, hcount, hbound, hbetween, hended⟩ := hs
  unfold PrintState.osaServerPrintfInfo at hstep
  split at hstep
  · cases hstep
  · cases hstep
  · next hpc =>
    cases hstep
    exact ⟨fun h ↦ (by cases h), fun _ ↦ hended hpc⟩
  · next a hpc =>
    rw [hpc] at hat
    obtain ⟨x, ys, rfl⟩ := hat
    obtain ⟨next, hnode⟩ := hcells.segment.allocated (a := a) (d := x) (by simp)
    rw [hnode] at hstep
    cases hstep
    refine ⟨fun _ ↦ ⟨⟨pre ++ [(a, x)], ys, ?_, ?_, pre, rfl⟩, ?_, fun _ ↦ hbound (by simp [hpc]),
      hbetween, fun h ↦ by cases h⟩, fun h ↦ by cases h⟩
    · rw [List.append_assoc]
      exact hcells
    · simp [hvisited]
    · simp only [List.length_append, List.length_singleton]
      omega
  · next a x hpc =>
    obtain ⟨h, hh, rfl⟩ := Option.map_eq_some_iff.mp hstep
    rw [hpc] at hat
    obtain ⟨xs, rfl⟩ := hat
    exact ⟨fun _ ↦ ⟨⟨xs ++ [(a, x)], post, hcells, hvisited, xs, x, rfl⟩, hcount,
      fun _ ↦ hbound (by simp [hpc]), hbetween, fun h ↦ by cases h⟩, fun h ↦ by cases h⟩
  · next a hpc =>
    rw [hpc] at hat
    obtain ⟨xs, x, rfl⟩ := hat
    rw [next_of_cells hcells] at hstep
    cases hstep
    have hbound := hbound (by simp [hpc])
    refine ⟨fun _ ↦ ⟨⟨xs ++ [(a, x)], post, hcells, hvisited, ?_⟩, hcount, fun _ ↦ hbound,
      hbetween, fun hend ↦ ?_⟩, fun h ↦ by cases h⟩
    · cases post with
      | nil => trivial
      | cons y ys => exact ⟨y.2, ys, rfl⟩
    · obtain ⟨n, hn, hle⟩ := hbound
      have hpost : post = [] := by
        cases post with
        | nil => rfl
        | cons y ys => cases hend
      have hlength : p.server.list.contents.length = p.visited.length := by
        rw [(hinv.contents_of_cells hcells).1, hpost, List.append_nil, hvisited]
      exact hbetween n hn _ (by dsimp only; omega) (by dsimp only; omega)

@[simp] theorem setServer_of_locks {p : PrintState} {s : State} (h : p.pc.locks = true) :
    p.setServer s =
      { p with
        server := s
        visited := p.visited.filter fun x ↦ decide (x ∈ s.list.contents)
        gone := p.gone +
          (p.visited.length - (p.visited.filter fun x ↦ decide (x ∈ s.list.contents)).length)
        lengths := p.lengths ++ [s.list.contents.length] } := by
  rw [PrintState.setServer, if_pos h]

/-- The clients that were counted and those that were not, when the list is another one. -/
structure Splits (p : PrintState) (s : State) (pre post : List (ℕ × ℕ)) : Prop where
  cells : s.list.Cells (pre ++ post)
  contents : s.list.contents = (pre ++ post).map Prod.snd
  visited : (p.visited.filter fun x ↦ decide (x ∈ s.list.contents)) = pre.map Prod.snd
  place : p.pc.At pre post

/-- The list gets at most one longer or shorter, and no longer than the walk allows for. -/
theorem WalkInv.setServer {p : PrintState} {s : State} {pre post : List (ℕ × ℕ)} (hs : WalkInv p)
    (hlocks : p.pc.locks = true) (hsplits : Splits p s pre post)
    (hle : p.server.list.contents.length ≤ s.list.contents.length + 1)
    (hbound : p.pc ≠ .node none →
      (∃ n ∈ p.lengths,
        s.list.contents.length + (p.gone + (p.visited.length - pre.length)) ≤ n) ∨
      p.gone + (p.visited.length - pre.length) = 0) :
    WalkInv (p.setServer s) := by
  have hfilter := List.length_filter_le (fun x ↦ decide (x ∈ s.list.contents)) p.visited
  have hlength : (p.visited.filter fun x ↦ decide (x ∈ s.list.contents)).length = pre.length := by
    rw [hsplits.visited, List.length_map]
  rw [setServer_of_locks hlocks, hlength]
  refine ⟨⟨pre, post, hsplits.cells, hsplits.visited.symm, hsplits.place⟩, ?_, fun hne ↦ ?_, ?_,
    fun hend ↦ List.mem_append_left _ (hs.ended hend)⟩
  · dsimp only
    have := hs.count
    omega
  · rcases hbound hne with ⟨n, hn, hle⟩ | hzero
    · exact ⟨n, List.mem_append_left _ hn, hle⟩
    · exact ⟨_, List.mem_append_right _ (List.mem_singleton_self _), by dsimp only; omega⟩
  · intro n hn m hlow hm
    dsimp only at hlow hn ⊢
    by_cases hlen : p.server.list.contents.length ≤ m
    · rcases List.mem_append.mp hn with hn | hn
      · exact List.mem_append_left _ (hs.between n hn m hlen hm)
      · have := List.mem_singleton.mp hn
        exact List.mem_append_right _ (List.mem_singleton.mpr (by omega))
    · exact List.mem_append_right _ (List.mem_singleton.mpr (by omega))

/-- Up to the end of the list the walk is at the node of a client of the list. -/
theorem client_of_at {p : PrintState} {pre post : List (ℕ × ℕ)}
    (hcells : p.server.list.Cells (pre ++ post)) (hat : p.pc.At pre post)
    (hne : p.pc ≠ .node none) : ∃ c ∈ pre ++ post, p.client = some c.2 ∧
      ∀ y ≠ c.2, p.pc.At (pre.filter fun c ↦ decide (c.2 ≠ y))
        (post.filter fun c ↦ decide (c.2 ≠ y)) := by
  have hkept : ∀ {a x : ℕ}, (a, x) ∈ pre ++ post → ∀ b,
      (p.server.list.nodes a).map Chain.Node.data = b → some x = b := by
    rintro a x hmem b rfl
    obtain ⟨next, hnode⟩ := hcells.segment.allocated hmem
    rw [hnode]
    rfl
  cases hpc : p.pc with
  | idle | done =>
      rw [hpc] at hat
      exact hat.elim
  | node n =>
      cases n with
      | none => exact (hne hpc).elim
      | some a =>
          rw [hpc] at hat
          obtain ⟨x, ys, rfl⟩ := hat
          refine ⟨(a, x), by simp, ?_, fun y hy ↦ ⟨x, _, List.filter_cons_of_pos ?_⟩⟩
          · rw [PrintState.client, hpc]
            exact (hkept (by simp) _ rfl).symm
          · exact decide_eq_true hy.symm
  | ip a x =>
      rw [hpc] at hat
      obtain ⟨xs, rfl⟩ := hat
      refine ⟨(a, x), by simp, by rw [PrintState.client, hpc], fun y hy ↦ ?_⟩
      exact ⟨xs.filter fun c ↦ decide (c.2 ≠ y), by simp [hy.symm]⟩
  | next a =>
      rw [hpc] at hat
      obtain ⟨xs, x, rfl⟩ := hat
      refine ⟨(a, x), by simp, ?_, fun y hy ↦ ?_⟩
      · rw [PrintState.client, hpc]
        exact (hkept (by simp) _ rfl).symm
      · exact ⟨xs.filter fun c ↦ decide (c.2 ≠ y), x, by simp [hy.symm]⟩

theorem PrintPc.At.append {pc : PrintPc} {pre post : List (ℕ × ℕ)} (h : pc.At pre post)
    (zs : List (ℕ × ℕ)) : pc.At pre (post ++ zs) := by
  cases pc with
  | idle | done => exact h.elim
  | ip | next => exact h
  | node n =>
      cases n with
      | none => trivial
      | some a =>
          obtain ⟨x, ys, rfl⟩ := h
          exact ⟨x, ys ++ zs, rfl⟩

/-- A client that adds itself is behind all the others. -/
theorem splits_of_push {p : PrintState} {s : State} {pre post : List (ℕ × ℕ)} {mem : Option ℕ}
    {x : ℕ} (hinv : Inv p.server) (hinv' : Inv s) (hcells : p.server.list.Cells (pre ++ post))
    (hvisited : pre.map Prod.snd = p.visited) (hat : p.pc.At pre post)
    (hfresh : p.server.list.Fresh mem) (hpush : p.server.list.listPushBack mem x = some s.list) :
    ∃ zs, Splits p s pre (post ++ zs) ∧
      s.list.contents = p.server.list.contents ++ zs.map Prod.snd := by
  obtain ⟨hcontents, hsize⟩ := hinv.contents_of_cells hcells
  have hgrown : ∃ zs, s.list.Cells (pre ++ (post ++ zs)) ∧ p.pc.At pre (post ++ zs) := by
    cases mem with
    | none => exact ⟨[], by simpa using hcells.pushBack_none hpush, by simpa using hat⟩
    | some b =>
        refine ⟨[(b, x)], ?_, hat.append _⟩
        rw [← List.append_assoc]
        exact (hcells.pushBack hsize (hfresh b rfl) hpush).1
  obtain ⟨zs, hcells', hat'⟩ := hgrown
  obtain ⟨hcontents', -⟩ := hinv'.contents_of_cells hcells'
  have hmore : s.list.contents = p.server.list.contents ++ zs.map Prod.snd := by
    rw [hcontents', hcontents, ← List.append_assoc, List.map_append]
  refine ⟨zs, ⟨hcells', hcontents', ?_, hat'⟩, hmore⟩
  rw [← hvisited, hmore, hcontents]
  refine List.filter_eq_self.mpr fun y hy ↦ decide_eq_true ?_
  rw [List.map_append]
  exact List.mem_append_left _ (List.mem_append_left _ hy)

theorem WalkInv.server {p : PrintState} {s : State} {l : Label param} (hs : WalkInv p)
    (hlocks : p.pc.locks = true) (hinv : Inv p.server) (hinv' : Inv s)
    (hok : PrintOk param p (.server l)) (hstep : ListStep param p.server l s) :
    WalkInv (p.setServer s) := by
  obtain ⟨pre, post, hcells, hvisited, hat⟩ := hs.place
  obtain ⟨hcontents, -⟩ := hinv.contents_of_cells hcells
  have hlength : p.visited.length = pre.length := by rw [← hvisited, List.length_map]
  have hkeep : (∀ x ∈ p.visited, x ∈ s.list.contents) →
      (p.visited.filter fun x ↦ decide (x ∈ s.list.contents)) = pre.map Prod.snd := by
    intro hall
    rw [hvisited]
    exact List.filter_eq_self.mpr fun x hx ↦ decide_eq_true (hall x hx)
  have hsub : ∀ x ∈ p.visited, x ∈ p.server.list.contents := by
    rw [← hvisited, hcontents, List.map_append]
    exact fun x hx ↦ List.mem_append_left _ hx
  cases hstep with
  | same _ _ hlist =>
      have hsplits : Splits p s pre post :=
        ⟨hlist ▸ hcells, hlist ▸ hcontents, hkeep (by rw [hlist]; exact hsub), hat⟩
      refine hs.setServer hlocks hsplits (by rw [hlist]; omega) fun hne ↦ Or.inl ?_
      rw [hlist, hlength, Nat.sub_self]
      exact hs.bound hne
  | push i mem thr _ hthr hpc hfresh hpush =>
      obtain ⟨zs, hsplits, hmore⟩ := splits_of_push hinv hinv' hcells hvisited hat hfresh hpush
      refine hs.setServer hlocks hsplits (by simp [hmore]; omega) fun hne ↦ ?_
      rw [hlength, Nat.sub_self, Nat.add_zero]
      obtain ⟨c, -, hclient, -⟩ := client_of_at hcells hat hne
      exact (hok thr hthr hpc (by simp [hclient]) s.list hpush).symm
  | earse i thr _ hthr hpc hearse =>
      have hcells' := hinv.earse_cells hcells hearse
      obtain ⟨l', hl', hholds, -⟩ := hinv.reg.holds.earse thr.handle
      obtain rfl : l' = s.list := Option.some.inj (hl'.symm.trans hearse)
      have herase : s.list.contents.length = (p.server.list.contents.erase thr.handle).length := by
        rw [hholds.contents]
      have hshorter := List.le_length_erase (l := p.server.list.contents) (a := thr.handle)
      obtain ⟨hcontents', -⟩ := hinv'.contents_of_cells hcells'
      rw [List.filter_append] at hcells' hcontents'
      have hsplits : Splits p s (pre.filter fun c ↦ decide (c.2 ≠ thr.handle))
          (post.filter fun c ↦ decide (c.2 ≠ thr.handle)) := by
        refine ⟨hcells', hcontents', ?_, ?_⟩
        · rw [← hvisited, List.filter_map]
          refine congrArg (List.map Prod.snd) (List.filter_congr fun c hc ↦ ?_)
          have hin := hsub c.2 (hvisited ▸ List.mem_map_of_mem hc)
          refine decide_eq_decide.mpr ?_
          rw [hholds.contents, hinv.reg.nodup.mem_erase_iff]
          exact and_iff_left hin
        · by_cases hend : p.pc = .node none
          · rw [hend]
            trivial
          · obtain ⟨c, -, hclient, hafter⟩ := client_of_at hcells hat hend
            refine hafter _ fun heq ↦ hok thr hthr hpc ?_
            rw [hclient, heq]
      have hpre := List.length_filter_le (fun c ↦ decide (c.2 ≠ thr.handle)) pre
      have hpost := List.length_filter_le (fun c ↦ decide (c.2 ≠ thr.handle)) post
      refine hs.setServer hlocks hsplits (by omega) fun hne ↦ Or.inl ?_
      obtain ⟨n, hn, hle⟩ := hs.bound hne
      refine ⟨n, hn, ?_⟩
      rw [hcontents, List.length_map, List.length_append] at hle
      rw [hcontents', List.length_map, List.length_append, hlength]
      omega

/-! ## Every run -/

structure PrintInv (p : PrintState) : Prop where
  inv : Inv p.server
  app : p.pc.locks = true → p.server.app.ending = false
  walk : p.pc.locks = true → WalkInv p
  count : p.pc = .done → p.clientCount ∈ p.lengths

@[simp] theorem setServer_server (p : PrintState) (s : State) : (p.setServer s).server = s := by
  unfold PrintState.setServer
  split <;> rfl

@[simp] theorem setServer_pc (p : PrintState) (s : State) : (p.setServer s).pc = p.pc := by
  unfold PrintState.setServer
  split <;> rfl

/-- While the call holds `mutex_handle` the server is not taken down. -/
theorem ending_of_locks {s s' : State} {l : Label param} (hstep : step param s l = some s')
    (hmutex : s.takesMutex param l = false) (h : s.app.ending = false) :
    s'.app.ending = false := by
  cases step_cases hstep with
  | app happ =>
      cases happ with
      | abor hpc => simp [State.takesMutex, hpc] at hmutex
      | wake | destory | setStop | clients | noClients | notAbor => rfl
      | deleteLocks hpc | freeList hpc | freeHandle hpc =>
          rw [hpc] at h
          cases h
  | server a hserver => cases hserver <;> exact h
  | client i a thr hthr hover hclient =>
      obtain ⟨thr', hframe⟩ := hclient.frame
      rw [hframe.app]
      exact h
  | sender l hl hfree hsend =>
      rw [hsend.frame.app]
      exact h

theorem print_frame {p p' : PrintState} (hstep : p.osaServerPrintfInfo = some p') :
    p'.server = p.server ∧ p.pc.locks = true := by
  unfold PrintState.osaServerPrintfInfo at hstep
  split at hstep
  · cases hstep
  · cases hstep
  · next hpc =>
    cases hstep
    exact ⟨rfl, by rw [hpc]; rfl⟩
  all_goals
    next hpc =>
    obtain ⟨_, -, rfl⟩ := Option.map_eq_some_iff.mp hstep
    exact ⟨rfl, by rw [hpc]; rfl⟩

theorem PrintInv.start {p : PrintState} (hs : PrintInv p) (hending : p.server.app.ending = false) :
    PrintInv { p with
      pc := .node p.server.list.listBegin
      clientCount := 0
      visited := []
      gone := 0
      lengths := [p.server.list.contents.length] } := by
  obtain ⟨cells, hcells, -⟩ := hs.inv.reg.cells
  obtain ⟨hcontents, -⟩ := hs.inv.contents_of_cells hcells
  refine ⟨hs.inv, fun _ ↦ hending, fun _ ↦ ⟨⟨[], cells, hcells, rfl, ?_⟩, rfl, fun _ ↦ ?_, ?_, ?_⟩,
    fun h ↦ by cases h⟩
  · have hsegment := hcells.segment
    change PrintPc.At [] cells (.node p.server.list.next)
    cases cells with
    | nil =>
        have hnext : p.server.list.next = none := hsegment
        rw [hnext]
        trivial
    | cons c cells =>
        rw [hsegment.1]
        exact ⟨c.2, cells, rfl⟩
  · exact ⟨_, List.mem_singleton_self _, le_rfl⟩
  · intro n hn m hle hm
    have := List.mem_singleton.mp hn
    exact List.mem_singleton.mpr (le_antisymm (by omega) hle)
  · intro hend
    have hnext : p.server.list.next = none := PrintPc.node.inj hend
    have hnil : cells = [] := by
      cases cells with
      | nil => rfl
      | cons c cells =>
          have hsegment := hcells.segment.1
          rw [hnext] at hsegment
          cases hsegment
    rw [hcontents, hnil]
    exact List.mem_singleton_self _

theorem PrintInv.step {p p' : PrintState} {l : PrintLabel param} (hs : PrintInv p)
    (hok : PrintOk param p l) (hstep : printStep param p l = some p') : PrintInv p' := by
  cases l with
  | start =>
      simp only [printStep] at hstep
      split at hstep
      · next hcond =>
        cases hstep
        exact hs.start hcond.2.2
      · cases hstep
  | print =>
      simp only [printStep] at hstep
      obtain ⟨hserver, hlocks⟩ := print_frame hstep
      obtain ⟨hwalk, hcount⟩ := (hs.walk hlocks).print hs.inv hstep
      exact ⟨hserver ▸ hs.inv, fun _ ↦ hserver ▸ hs.app hlocks, hwalk, hcount⟩
  | server l =>
      simp only [printStep] at hstep
      split at hstep
      · cases hstep
      · next hfree =>
        obtain ⟨s', hs', rfl⟩ := Option.map_eq_some_iff.mp hstep
        have hinv' := hs.inv.step hs'
        refine ⟨?_, ?_, ?_, ?_⟩
        · rw [setServer_server]
          exact hinv'
        · rw [setServer_server, setServer_pc]
          intro hlocks
          refine ending_of_locks hs' ?_ (hs.app hlocks)
          exact Bool.eq_false_iff.mpr fun hmutex ↦ hfree ⟨hlocks, hmutex⟩
        · rw [setServer_pc]
          exact fun hlocks ↦ (hs.walk hlocks).server hlocks hs.inv hinv' hok (list_cases hs')
        · rw [setServer_pc]
          intro hdone
          rw [PrintState.setServer, if_neg (by simp [hdone, PrintPc.locks])]
          exact hs.count hdone

theorem printInv_of_reach {p : PrintState}
    (h : Reach (printStep param) (PrintOk param) printStart p) : PrintInv p :=
  h.invariant ⟨start_inv, fun h ↦ (by cases h), fun h ↦ (by cases h), fun h ↦ by cases h⟩
    fun _ _ _ hs hok hstep ↦ hs.step hok hstep

theorem PrintInv.law {p : PrintState} (hs : PrintInv p) : PrintLaw p := by
  refine ⟨fun a ha ↦ ?_, fun a x hpc ↦ ?_, hs.count⟩
  · have hlocks : p.pc.locks = true := by
      cases hpc : p.pc <;> first | rfl | (rw [hpc] at ha; cases ha)
    obtain ⟨pre, post, hcells, -, hat⟩ := (hs.walk hlocks).place
    refine ⟨_, hcells, ?_⟩
    cases hpc : p.pc with
    | node n =>
        rw [hpc] at hat ha
        cases ha
        obtain ⟨x, ys, rfl⟩ := hat
        simp
    | next b =>
        rw [hpc] at hat ha
        cases ha
        obtain ⟨xs, x, rfl⟩ := hat
        simp
    | idle | ip | done =>
        rw [hpc] at ha
        cases ha
  · obtain ⟨pre, post, hcells, -, hat⟩ := (hs.walk (by rw [hpc]; rfl)).place
    rw [hpc] at hat
    obtain ⟨xs, rfl⟩ := hat
    have hmem : x ∈ p.server.list.contents := by
      rw [(hs.inv.contents_of_cells hcells).1]
      simp
    obtain ⟨i, thr, hthr, rfl, hlisted⟩ := hs.inv.reg.listed x hmem
    exact ⟨hmem, hs.inv.handle.allocated i thr hthr (CliPc.ne_done_of_listed hlisted)⟩

/-! ## Runs that break the law -/

/-- The walk goes on from `p` to `q` undisturbed, and counts `n` clients. -/
structure Walks (param : ServerParam) (p q : PrintState) (n : ℕ) : Prop where
  reach : Reach (printStep param) Always p q
  server : q.server = p.server
  lengths : q.lengths = p.lengths
  count : q.clientCount = p.clientCount + n

theorem Walks.trans {p q r : PrintState} {m n : ℕ} (h : Walks param p q m)
    (h' : Walks param q r n) : Walks param p r (m + n) := by
  refine ⟨h.reach.trans h'.reach, h'.server.trans h.server, h'.lengths.trans h.lengths, ?_⟩
  rw [h'.count, h.count, Nat.add_assoc]

theorem walks_next {p : PrintState} {xs ys : List (ℕ × ℕ)} {a x : ℕ}
    (hcells : p.server.list.Cells (xs ++ [(a, x)] ++ ys)) (hpc : p.pc = .next a) :
    Walks param p { p with pc := .node (ys.head?.map Prod.fst) } 0 := by
  refine ⟨.tail .print .refl trivial ?_, rfl, rfl, rfl⟩
  simp only [printStep, PrintState.osaServerPrintfInfo, hpc, next_of_cells hcells, Option.map_some]

theorem walks_ip {p : PrintState} (hinv : Inv p.server) {xs ys : List (ℕ × ℕ)} {a x : ℕ}
    (hcells : p.server.list.Cells (xs ++ [(a, x)] ++ ys)) (hpc : p.pc = .ip a x) :
    Walks param p { p with pc := .node (ys.head?.map Prod.fst) } 0 := by
  have hmem : x ∈ p.server.list.contents := by
    rw [(hinv.contents_of_cells hcells).1]
    simp
  obtain ⟨i, thr, hthr, rfl, hlisted⟩ := hinv.reg.listed x hmem
  obtain ⟨h, hh⟩ := hinv.handle.allocated i thr hthr (CliPc.ne_done_of_listed hlisted)
  have hread : Walks param p { p with pc := .next a } 0 := by
    refine ⟨.tail .print .refl trivial ?_, rfl, rfl, rfl⟩
    simp only [printStep, PrintState.osaServerPrintfInfo, hpc, hh, Option.map_some]
  exact hread.trans (walks_next (p := { p with pc := .next a }) hcells rfl)

theorem walks_node {p : PrintState} (hinv : Inv p.server) {xs ys : List (ℕ × ℕ)} {a x : ℕ}
    (hcells : p.server.list.Cells (xs ++ (a, x) :: ys)) (hpc : p.pc = .node (some a)) :
    ∃ q, Walks param p q 1 ∧ q.pc = .node (ys.head?.map Prod.fst) := by
  obtain ⟨next, hnode⟩ := hcells.segment.allocated (a := a) (d := x) (by simp)
  have hread : Walks param p { p with
      pc := .ip a x, clientCount := p.clientCount + 1, visited := p.visited ++ [x] } 1 := by
    refine ⟨.tail .print .refl trivial ?_, rfl, rfl, rfl⟩
    simp only [printStep, PrintState.osaServerPrintfInfo, hpc, hnode, Option.map_some]
  have hcells' : p.server.list.Cells (xs ++ [(a, x)] ++ ys) := by
    rw [List.append_assoc]
    exact hcells
  exact ⟨_, hread.trans (walks_ip (p := { p with
    pc := .ip a x, clientCount := p.clientCount + 1, visited := p.visited ++ [x] }) hinv hcells'
      rfl), rfl⟩

/-- Undisturbed, the walk counts all the clients that it has not come to. -/
theorem finishes_at_node {p : PrintState} {pre post : List (ℕ × ℕ)} (hinv : Inv p.server)
    (hcells : p.server.list.Cells (pre ++ post))
    (hpc : p.pc = .node (post.head?.map Prod.fst)) :
    ∃ t, Walks param p t post.length ∧ t.pc = .done := by
  induction post generalizing p pre with
  | nil =>
      refine ⟨{ p with pc := .done }, ⟨.tail .print .refl trivial ?_, rfl, rfl, rfl⟩, rfl⟩
      simp only [printStep, PrintState.osaServerPrintfInfo, hpc]
      rfl
  | cons c ys ih =>
      obtain ⟨q, hwalks, hq⟩ :
          ∃ q, Walks param p q 1 ∧ q.pc = .node (ys.head?.map Prod.fst) :=
        walks_node hinv hcells hpc
      have hcells' : q.server.list.Cells (pre ++ [c] ++ ys) := by
        rw [hwalks.server, List.append_assoc]
        exact hcells
      obtain ⟨t, ht, hdone⟩ := ih (hwalks.server ▸ hinv) hcells' hq
      refine ⟨t, ?_, hdone⟩
      rw [List.length_cons, Nat.add_comm]
      exact hwalks.trans ht

theorem finishes {p : PrintState} {pre post : List (ℕ × ℕ)} (hinv : Inv p.server)
    (hcells : p.server.list.Cells (pre ++ post)) (hat : p.pc.At pre post)
    (hne : p.pc ≠ .node none) : ∃ t, Walks param p t post.length ∧ t.pc = .done := by
  have hrest : ∀ {q : PrintState}, Walks param p q 0 → q.pc = .node (post.head?.map Prod.fst) →
      ∃ t, Walks param p t post.length ∧ t.pc = .done := by
    intro q hwalks hq
    obtain ⟨t, ht, hdone⟩ : ∃ t, Walks param q t post.length ∧ t.pc = .done :=
      finishes_at_node (hwalks.server ▸ hinv) (hwalks.server ▸ hcells) hq
    exact ⟨t, by simpa using hwalks.trans ht, hdone⟩
  cases hpc : p.pc with
  | idle | done =>
      rw [hpc] at hat
      exact hat.elim
  | node n =>
      cases n with
      | none => exact (hne hpc).elim
      | some a =>
          rw [hpc] at hat
          obtain ⟨x, ys, rfl⟩ := hat
          exact finishes_at_node hinv hcells hpc
  | ip a x =>
      rw [hpc] at hat
      obtain ⟨xs, rfl⟩ := hat
      exact hrest (walks_ip hinv hcells hpc) rfl
  | next a =>
      rw [hpc] at hat
      obtain ⟨xs, x, rfl⟩ := hat
      exact hrest (walks_next hcells hpc) rfl

theorem Move.of_unregister {server : ServerStatus} {thr thr' : CliThread} {h : OprHandle}
    {a : CliAnswer param} {e : CliEffect} (hmove : Move param server thr h a thr' e)
    (hpc : thr.pc = .unregister) : e = .earse := by
  cases hmove with
  | unregister => rfl
  | create h | quit h | connect h | noBuf h | createBuf _ _ _ h | getSocket h | register _ h
  | connected h | disconnected h | running h | stopped h | getFull _ h | sent _ h | sendFailed _ h
  | putEmpty _ _ h | turn h | turnFailed h | exitStatus h | exitShutdown h | exitClose h
  | exitUnset h | shutdown h | close h | deleteLock h | testType h | drain _ h | deleteBuf h
  | free h =>
      rw [hpc] at h
      cases h

/-- While the server is not freed a thread that is to remove itself does so. -/
theorem earse_of_unregister {s s' : State} (hinv : Inv s) (hfreed : s.app.freed = false) {i : ℕ}
    {thr : CliThread} (hthr : s.threads[i]? = some thr) (hpc : thr.pc = .unregister)
    (hstep : step param s (.client i .next) = some s') :
    s.list.listEarseData thr.handle = some s'.list := by
  obtain ⟨thr₀, hthr₀, hover, h⟩ := client_cases hstep
  obtain rfl : thr₀ = thr := Option.some.inj (hthr₀.symm.trans hthr)
  obtain ⟨h, thr', e, -, hmove, -, hearse, -⟩ := h.moves hinv hfreed hthr hover
  exact hearse (hmove.of_unregister hpc)

/-- While the server is not freed a thread that is to add itself does so, if the list takes it. -/
theorem push_of_register {s s' : State} (hinv : Inv s) (hfreed : s.app.freed = false) {i : ℕ}
    {mem : Option ℕ} {thr : CliThread} {l : ListHandle} (hthr : s.threads[i]? = some thr)
    (hpc : thr.pc = .register) (hpush : s.list.listPushBack mem thr.handle = some l)
    (hstep : step param s (.client i (.node mem)) = some s') :
    s'.list = l ∧ s.list.Fresh mem := by
  obtain ⟨thr₀, hthr₀, hover, h⟩ := client_cases hstep
  obtain rfl : thr₀ = thr := Option.some.inj (hthr₀.symm.trans hthr)
  obtain ⟨h, thr', e, -, hmove, -, -, hpushed⟩ := h.moves hinv hfreed hthr hover
  cases hmove with
  | register _ hpc => exact hpushed mem l rfl hpush

theorem locks_of_client {p : PrintState} (h : p.client ≠ none) :
    p.pc.locks = true ∧ p.pc ≠ .node none := by
  unfold PrintState.client at h
  split at h
  all_goals first
    | exact (h rfl).elim
    | next hpc =>
        rw [hpc]
        exact ⟨rfl, by simp⟩

theorem not_freed_of_not_ending {pc : AppPc} (h : pc.ending = false) : pc.freed = false := by
  cases pc <;> first | rfl | cases h

/-- A client that removes the node that the walk is at. -/
theorem not_law_of_earse {p p' : PrintState} (hs : PrintInv p) {i : ℕ}
    (hstep : printStep param p (.server (.client i .next)) = some p')
    (hnot : ¬ PrintOk param p (.server (.client i .next))) : ¬ PrintLaw p' := by
  simp only [PrintOk, Classical.not_forall, not_not] at hnot
  obtain ⟨thr, hthr, hpc, hclient⟩ := hnot
  obtain ⟨hlocks, -⟩ := locks_of_client (p := p) (by simp [hclient])
  simp only [printStep] at hstep
  split at hstep
  · cases hstep
  obtain ⟨s', hs', rfl⟩ := Option.map_eq_some_iff.mp hstep
  have hearse := earse_of_unregister hs.inv (not_freed_of_not_ending (hs.app hlocks)) hthr hpc hs'
  have hinv' := hs.inv.step hs'
  obtain ⟨pre, post, hcells, -⟩ := (hs.walk hlocks).place
  have hcells' := hs.inv.earse_cells hcells hearse
  -- the node is not among the cells any more
  have hnode : ∀ a, (p.server.list.nodes a).map Chain.Node.data = some thr.handle →
      ¬ ∃ cells, s'.list.Cells cells ∧ a ∈ cells.map Prod.fst := by
    rintro a hdata ⟨cells, hcells₁, hmem⟩
    obtain rfl := hcells₁.segment.unique hcells'.segment
    obtain ⟨⟨a', x⟩, hcell, rfl⟩ := List.mem_map.mp hmem
    obtain ⟨hcell, hne⟩ := List.mem_filter.mp hcell
    obtain ⟨next, hallocated⟩ := hcells.segment.allocated hcell
    rw [hallocated] at hdata
    exact of_decide_eq_true hne (Option.some.inj hdata)
  intro hlaw
  have hlawNode := hlaw.node
  have hlawHandle := hlaw.handle
  rw [setServer_server, setServer_pc] at hlawNode hlawHandle
  unfold PrintState.client at hclient
  split at hclient
  · next a hat => exact hnode a hclient (hlawNode a (by rw [hat]; rfl))
  · next a hat => exact hnode a hclient (hlawNode a (by rw [hat]; rfl))
  · next a x hat =>
    obtain rfl := Option.some.inj hclient
    have hmem := (hlawHandle a _ hat).1
    rw [(hinv'.contents_of_cells hcells').1] at hmem
    obtain ⟨c, hc, heq⟩ := List.mem_map.mp hmem
    exact of_decide_eq_true (List.mem_filter.mp hc).2 heq
  all_goals cases hclient

/-- A client that adds itself when too many clients are gone that were counted. -/
theorem not_law_of_push {p p' : PrintState} (hs : PrintInv p) {i : ℕ} {mem : Option ℕ}
    (hstep : printStep param p (.server (.client i (.node mem))) = some p')
    (hnot : ¬ PrintOk param p (.server (.client i (.node mem)))) :
    ∃ t, Reach (printStep param) Always p' t ∧ ¬ PrintLaw t := by
  simp only [PrintOk, Classical.not_forall, not_or, not_exists, not_and, not_le] at hnot
  obtain ⟨thr, hthr, hpc, hclient, l, hpush, hgone, hlong⟩ := hnot
  obtain ⟨hlocks, hne⟩ := locks_of_client hclient
  simp only [printStep] at hstep
  split at hstep
  · cases hstep
  obtain ⟨s', hs', rfl⟩ := Option.map_eq_some_iff.mp hstep
  obtain ⟨rfl, hfresh⟩ :=
    push_of_register hs.inv (not_freed_of_not_ending (hs.app hlocks)) hthr hpc hpush hs'
  have hinv' := hs.inv.step hs'
  have hwalk := hs.walk hlocks
  obtain ⟨pre, post, hcells, hvisited, hat⟩ := hwalk.place
  obtain ⟨zs, hsplits, -⟩ := splits_of_push hs.inv hinv' hcells hvisited hat hfresh hpush
  obtain ⟨t, ht, hdone⟩ :
      ∃ t, Walks param (p.setServer s') t (post ++ zs).length ∧ t.pc = .done := by
    have hcells' : (p.setServer s').server.list.Cells (pre ++ (post ++ zs)) := by
      rw [setServer_server]
      exact hsplits.cells
    refine finishes ?_ hcells' ?_ ?_
    · rw [setServer_server]
      exact hinv'
    · rw [setServer_pc]
      exact hat.append zs
    · rw [setServer_pc]
      exact hne
  refine ⟨t, ht.reach, fun hlaw ↦ ?_⟩
  have hcount := hlaw.count hdone
  have hlength := congrArg List.length hsplits.contents
  have hvisitedLength := congrArg List.length hvisited
  rw [ht.lengths, ht.count, setServer_of_locks hlocks] at hcount
  simp only [List.length_map, List.length_append] at hlength hvisitedLength
  have hwalkCount := hwalk.count
  rcases List.mem_append.mp hcount with hold | hnew
  · have := hlong _ hold
    simp only [List.length_append] at this
    omega
  · have := List.mem_singleton.mp hnew
    simp only [List.length_append] at this
    omega

/-- The walk follows nodes and handles of the list, and counts a length of the list, in every run in
which no client removes the node that it is at and no client comes in the place of one that was
counted; a step that does not meet this can be continued to a break of the law. -/
theorem printfInfo_follows_list :
    (∀ p, Reach (printStep param) (PrintOk param) printStart p → PrintLaw p) ∧
    ∀ p l p', Reach (printStep param) (PrintOk param) printStart p →
      printStep param p l = some p' → ¬ PrintOk param p l →
      ∃ t, Reach (printStep param) Always p' t ∧ ¬ PrintLaw t := by
  refine ⟨fun p hreach ↦ (printInv_of_reach hreach).law, fun p l p' hreach hstep hnot ↦ ?_⟩
  have hinv := printInv_of_reach hreach
  cases l with
  | server l =>
      cases l with
      | client i a =>
          cases a with
          | next => exact ⟨p', .refl, not_law_of_earse hinv hstep hnot⟩
          | node mem => exact not_law_of_push hinv hstep hnot
          | mutex | buf | turn | send => exact (hnot trivial).elim
      | app | server | sendBuf | sender => exact (hnot trivial).elim
  | start | print => exact (hnot trivial).elim

def serverRun (ls : List (Label param)) : List (PrintLabel param) := ls.map .server

/-- One client is in a turn of its loop, and a call of `OSA_server_printfInfo` begins. -/
def walkRun : List (PrintLabel oneClient) :=
  serverRun (listenRun 3 ++ admitRun 4 0 ++ joinRun 0 10 ++
    [.app, .client 0 .next, .client 0 .next]) ++ [.start]

/-- The client's turn fails, and it removes itself. -/
def leaveRun : List (PrintLabel oneClient) :=
  serverRun (.client 0 (.turn false) :: List.replicate 6 (.client 0 .next))

theorem printfInfo_follows_list_run : ∃ p : PrintState, p.pc = .done ∧ p.clientCount = 1 ∧
    PrintLaw p := by
  obtain ⟨p, hreach, hp⟩ := Reach.exists_of_exec (printStep oneClient) (PrintOk oneClient)
    printStart (walkRun ++ List.replicate 3 .print ++ leaveRun ++ [.print])
    (fun p : PrintState ↦ p.pc = .done ∧ p.clientCount = 1) (by decide)
  obtain ⟨hdone, hcount⟩ := of_decide_eq_true hp
  exact ⟨p, hdone, hcount, printfInfo_follows_list.1 p hreach⟩

/-- The client removes its node while the walk is about to follow it. -/
theorem printfInfo_follows_freed : ∃ p : PrintState,
    Reach (printStep oneClient) Always printStart p ∧ p.pc = .node (some 10) ∧
    p.server.list.nodes 10 = none ∧ ¬ PrintLaw p := by
  obtain ⟨p, hreach, hp⟩ := Reach.exists_of_exec (printStep oneClient) Always printStart
    (walkRun ++ leaveRun)
    (fun p : PrintState ↦ p.pc = .node (some 10) ∧ (p.server.list.nodes 10).isNone) (by decide)
  obtain ⟨hpc, hnone⟩ := of_decide_eq_true hp
  have hfree := Option.isNone_iff_eq_none.mp hnone
  refine ⟨p, hreach, hpc, hfree, fun hlaw ↦ ?_⟩
  obtain ⟨cells, hcells, hmem⟩ := hlaw.node 10 (by rw [hpc]; rfl)
  obtain ⟨⟨a, x⟩, hcell, rfl⟩ := List.mem_map.mp hmem
  obtain ⟨next, hnode⟩ := hcells.segment.allocated hcell
  rw [hfree] at hnode
  cases hnode

end OsaBase.Server
