import Mathlib.Logic.Function.Basic
import OsaBase.Lib.Framing
import OsaBase.Lib.Runs

/-!
# Several writers of frames

Writers put frames on connections, each frame as two writes: its header and its body. A writer
names the connection by a descriptor; between its two writes other writers may write, and the
descriptor may be closed and given to a new connection. `Whole` is what every reader relies on: a
header is followed by the body of the same call.
-/

open Framing Transition

namespace Writers

/-- One write: the number of the call it belongs to, whether it is the call's second write, and
the bytes. -/
structure Piece (β : Type*) where
  call : ℕ
  isBody : Bool
  bytes : List β
  deriving DecidableEq, Repr

variable {T D β : Type*} {F : Format β}

def headPiece (n : ℕ) (f : Frame F) : Piece β := ⟨n, false, f.head⟩

def bodyPiece (n : ℕ) (f : Frame F) : Piece β := ⟨n, true, f.body⟩

/-- The writes of calls that ran one after the other. -/
def pairs (fs : List (ℕ × Frame F)) : List (Piece β) :=
  fs.flatMap fun p ↦ [headPiece p.1 p.2, bodyPiece p.1 p.2]

inductive Whole (F : Format β) : List (Piece β) → Prop
  | nil : Whole F []
  | cut (n : ℕ) (f : Frame F) : Whole F [headPiece n f]
  | frame (n : ℕ) (f : Frame F) {ps : List (Piece β)} (hrest : Whole F ps) :
      Whole F (headPiece n f :: bodyPiece n f :: ps)

/-- Whatever is written next, the writes are no sequence of frames any more. -/
def Spoiled (F : Format β) (ps : List (Piece β)) : Prop := ∀ more, ¬ Whole F (ps ++ more)

def bytes (ps : List (Piece β)) : List β := ps.flatMap Piece.bytes

theorem pairs_append_single (fs : List (ℕ × Frame F)) (n : ℕ) (f : Frame F) :
    pairs (fs ++ [(n, f)]) = pairs fs ++ [headPiece n f] ++ [bodyPiece n f] := by
  simp [pairs]

theorem bytes_pairs (fs : List (ℕ × Frame F)) : bytes (pairs fs) = stream (fs.map Prod.snd) := by
  induction fs with
  | nil => rfl
  | cons p fs ih =>
      have hpairs : pairs (p :: fs) = headPiece p.1 p.2 :: bodyPiece p.1 p.2 :: pairs fs := rfl
      rw [hpairs, bytes, List.flatMap_cons, List.flatMap_cons, ← bytes, ih]
      simp [headPiece, bodyPiece, stream, Frame.bytes]

theorem whole_pairs_append (fs : List (ℕ × Frame F)) {ps : List (Piece β)} :
    Whole F (pairs fs ++ ps) ↔ Whole F ps := by
  induction fs with
  | nil => rfl
  | cons p fs ih =>
      change Whole F (headPiece p.1 p.2 :: bodyPiece p.1 p.2 :: (pairs fs ++ ps)) ↔ _
      rw [← ih]
      constructor
      · intro h
        generalize hl : headPiece p.1 p.2 :: bodyPiece p.1 p.2 :: (pairs fs ++ ps) = l at h
        cases h with
        | nil => cases hl
        | cut n f => simp at hl
        | frame n f hrest =>
            obtain ⟨-, -, rfl⟩ : _ ∧ _ ∧ _ := by simpa only [List.cons.injEq] using hl
            exact hrest
      · exact Whole.frame p.1 p.2

theorem whole_pairs (fs : List (ℕ × Frame F)) : Whole F (pairs fs) := by
  rw [← List.append_nil (pairs fs)]
  exact (whole_pairs_append fs).mpr .nil

theorem spoiled_pairs_append {fs : List (ℕ × Frame F)} {ps : List (Piece β)}
    (h : Spoiled F ps) : Spoiled F (pairs fs ++ ps) := by
  intro more hwhole
  rw [List.append_assoc, whole_pairs_append] at hwhole
  exact h more hwhole

theorem spoiled_body (p : Piece β) (h : p.isBody = true) : Spoiled F [p] := by
  intro more hwhole
  cases hwhole with
  | cut => cases h
  | frame => cases h

theorem spoiled_head_head (p q : Piece β) (h : q.isBody = false) : Spoiled F [p, q] := by
  intro more hwhole
  cases hwhole with
  | frame => cases h

theorem spoiled_other_call (p q : Piece β) (h : p.call ≠ q.call) : Spoiled F [p, q] := by
  intro more hwhole
  cases hwhole with
  | frame => exact h rfl

/-! ## The system -/

/-- A writer between its two writes: where the header went, and the descriptor it was written
to. -/
structure Half (D : Type*) (F : Format β) where
  call : ℕ
  frame : Frame F
  desc : D
  conn : ℕ

structure State (T D : Type*) (F : Format β) where
  /-- The connection at a descriptor. -/
  conn : D → Option ℕ
  /-- How many connections there have been. -/
  opened : ℕ
  written : ℕ → List (Piece β)
  /-- The frames of the calls so far; a call is numbered by its place in the list. -/
  calls : List (Frame F)
  half : T → Option (Half D F)

inductive Move (T D : Type*) (F : Format β)
  | head (t : T) (d : D) (f : Frame F)
  | body (t : T)
  | giveUp (t : T)
  | connect (d : D)
  | close (d : D)

section

variable [DecidableEq T] [DecidableEq D]

/-- A write needs a connection at the descriptor; a writer that finds none gives up. -/
def step (s : State T D F) : Move T D F → Option (State T D F)
  | .head t d f =>
    match s.half t, s.conn d with
    | none, some c =>
      some { s with
        written := Function.update s.written c (s.written c ++ [headPiece s.calls.length f])
        calls := s.calls ++ [f]
        half := Function.update s.half t (some ⟨s.calls.length, f, d, c⟩) }
    | _, _ => none
  | .body t =>
    match s.half t with
    | some h =>
      (s.conn h.desc).map fun c ↦ { s with
        written := Function.update s.written c (s.written c ++ [bodyPiece h.call h.frame])
        half := Function.update s.half t none }
    | none => none
  | .giveUp t =>
    match s.half t with
    | some h =>
      if s.conn h.desc = none then some { s with half := Function.update s.half t none } else none
    | none => none
  | .connect d =>
    some { s with conn := Function.update s.conn d (some s.opened), opened := s.opened + 1 }
  | .close d => some { s with conn := Function.update s.conn d none }

end

/-- The condition on a move: a header goes to a connection on which no writer is between its two
writes, a body to the connection that its header went to. -/
def Clean (s : State T D F) : Move T D F → Prop
  | .head _ d _ => ∀ u, ∀ h ∈ s.half u, s.conn d ≠ some h.conn
  | .body t => ∀ h ∈ s.half t, s.conn h.desc = some h.conn
  | _ => True

/-- No connection and no call yet. -/
def start (T D : Type*) (F : Format β) : State T D F :=
  ⟨fun _ ↦ none, 0, fun _ ↦ [], [], fun _ ↦ none⟩

/-! ## The invariant -/

/-- The writes on `c` are those of whole calls, and possibly the header of one more call, which is
still at work if `c` is still open. -/
def Framed (s : State T D F) (c : ℕ) : Prop :=
  ∃ fs : List (ℕ × Frame F), (∀ p ∈ fs, p.2 ∈ s.calls) ∧
    (s.written c = pairs fs ∨ ∃ n, ∃ f ∈ s.calls, s.written c = pairs fs ++ [headPiece n f] ∧
      ∀ d, s.conn d = some c → ∃ t, s.half t = some ⟨n, f, d, c⟩)

structure Inv (s : State T D F) : Prop where
  conn_lt : ∀ d c, s.conn d = some c → c < s.opened
  conn_inj : ∀ d d' c, s.conn d = some c → s.conn d' = some c → d = d'
  fresh : ∀ c, s.opened ≤ c → s.written c = []
  call_lt : ∀ c, ∀ p ∈ s.written c, p.call < s.calls.length
  half_lt : ∀ t h, s.half t = some h → h.conn < s.opened ∧ h.call < s.calls.length
  half_mem : ∀ t h, s.half t = some h → h.frame ∈ s.calls
  half_inj : ∀ t u h k, s.half t = some h → s.half u = some k → h.call = k.call → t = u
  half_desc : ∀ t h d, s.half t = some h → s.conn d = some h.conn → d = h.desc
  half_conn : ∀ t h c, s.half t = some h → ∀ p ∈ s.written c, p.call = h.call → c = h.conn
  last : ∀ t h, s.half t = some h → s.conn h.desc = some h.conn →
    ∃ fs : List (ℕ × Frame F), (∀ p ∈ fs, p.2 ∈ s.calls) ∧
      s.written h.conn = pairs fs ++ [headPiece h.call h.frame]
  framed : ∀ c, Framed s c

variable {s s' : State T D F}

theorem start_inv : Inv (start T D F) where
  conn_lt := by
    intro d c h
    cases h
  conn_inj := by
    intro d d' c h
    cases h
  fresh := fun _ _ ↦ rfl
  call_lt := by
    intro c p hp
    cases hp
  half_lt := by
    intro t h ht
    cases ht
  half_mem := by
    intro t h ht
    cases ht
  half_inj := by
    intro t u h k ht
    cases ht
  half_desc := by
    intro t h d ht
    cases ht
  half_conn := by
    intro t h c ht
    cases ht
  last := by
    intro t h ht
    cases ht
  framed := fun _ ↦ ⟨[], by simp, Or.inl rfl⟩

theorem Inv.close [DecidableEq D] (hs : Inv s) (d : D) :
    Inv { s with conn := Function.update s.conn d none } := by
  have hold : ∀ d' c, Function.update s.conn d none d' = some c → s.conn d' = some c := by
    intro d' c h
    by_cases hd : d' = d
    · subst hd
      simp at h
    · rwa [Function.update_of_ne hd] at h
  constructor
  · exact fun d' c h ↦ hs.conn_lt d' c (hold d' c h)
  · exact fun d' d'' c h h' ↦ hs.conn_inj d' d'' c (hold d' c h) (hold d'' c h')
  · exact hs.fresh
  · exact hs.call_lt
  · exact hs.half_lt
  · exact hs.half_mem
  · exact hs.half_inj
  · exact fun t h d' ht hd ↦ hs.half_desc t h d' ht (hold d' h.conn hd)
  · exact hs.half_conn
  · exact fun t h ht hd ↦ hs.last t h ht (hold h.desc h.conn hd)
  · intro c
    obtain ⟨fs, hfs, hpairs | ⟨n, f, hf, hcut, hopen⟩⟩ := hs.framed c
    · exact ⟨fs, hfs, Or.inl hpairs⟩
    · exact ⟨fs, hfs, Or.inr ⟨n, f, hf, hcut, fun d' hd ↦ hopen d' (hold d' c hd)⟩⟩

theorem Inv.connect [DecidableEq D] (hs : Inv s) (d : D) :
    Inv { s with conn := Function.update s.conn d (some s.opened), opened := s.opened + 1 } := by
  have hold : ∀ d' c, Function.update s.conn d (some s.opened) d' = some c →
      (d' = d ∧ c = s.opened) ∨ (d' ≠ d ∧ s.conn d' = some c) := by
    intro d' c h
    by_cases hd : d' = d
    · subst hd
      simp only [Function.update_self, Option.some.injEq] at h
      exact Or.inl ⟨rfl, h.symm⟩
    · rw [Function.update_of_ne hd] at h
      exact Or.inr ⟨hd, h⟩
  have hlive : ∀ d' c, c < s.opened → Function.update s.conn d (some s.opened) d' = some c →
      s.conn d' = some c := by
    intro d' c hc h
    rcases hold d' c h with ⟨-, rfl⟩ | ⟨-, h⟩
    · exact (lt_irrefl _ hc).elim
    · exact h
  constructor
  · intro d' c h
    rcases hold d' c h with ⟨-, rfl⟩ | ⟨-, h⟩
    · exact Nat.lt_succ_self _
    · exact (hs.conn_lt d' c h).trans (Nat.lt_succ_self _)
  · intro d' d'' c h h'
    rcases hold d' c h with ⟨rfl, rfl⟩ | ⟨-, h⟩
    · rcases hold d'' _ h' with ⟨rfl, -⟩ | ⟨-, h'⟩
      · rfl
      · exact (lt_irrefl _ (hs.conn_lt d'' _ h')).elim
    · exact hs.conn_inj d' d'' c h (hlive d'' c (hs.conn_lt d' c h) h')
  · exact fun c hc ↦ hs.fresh c (Nat.le_of_succ_le hc)
  · exact hs.call_lt
  · exact fun t h ht ↦ ⟨(hs.half_lt t h ht).1.trans (Nat.lt_succ_self _), (hs.half_lt t h ht).2⟩
  · exact hs.half_mem
  · exact hs.half_inj
  · exact fun t h d' ht hd ↦ hs.half_desc t h d' ht (hlive d' h.conn (hs.half_lt t h ht).1 hd)
  · exact hs.half_conn
  · exact fun t h ht hd ↦ hs.last t h ht (hlive h.desc h.conn (hs.half_lt t h ht).1 hd)
  · intro c
    by_cases hc : c < s.opened
    · obtain ⟨fs, hfs, hpairs | ⟨n, f, hf, hcut, hopen⟩⟩ := hs.framed c
      · exact ⟨fs, hfs, Or.inl hpairs⟩
      · exact ⟨fs, hfs, Or.inr ⟨n, f, hf, hcut, fun d' hd ↦ hopen d' (hlive d' c hc hd)⟩⟩
    · exact ⟨[], by simp, Or.inl (hs.fresh c (not_lt.mp hc))⟩

theorem Inv.giveUp [DecidableEq T] (hs : Inv s) {t : T} {h : Half D F}
    (ht : s.half t = some h) (hgone : s.conn h.desc = none) :
    Inv { s with half := Function.update s.half t none } := by
  have hold : ∀ u k, Function.update s.half t none u = some k → s.half u = some k := by
    intro u k hu
    by_cases hut : u = t
    · subst hut
      simp at hu
    · rwa [Function.update_of_ne hut] at hu
  constructor
  · exact hs.conn_lt
  · exact hs.conn_inj
  · exact hs.fresh
  · exact hs.call_lt
  · exact fun u k hu ↦ hs.half_lt u k (hold u k hu)
  · exact fun u k hu ↦ hs.half_mem u k (hold u k hu)
  · exact fun u v k k' hu hv ↦ hs.half_inj u v k k' (hold u k hu) (hold v k' hv)
  · exact fun u k d hu ↦ hs.half_desc u k d (hold u k hu)
  · exact fun u k c hu ↦ hs.half_conn u k c (hold u k hu)
  · exact fun u k hu ↦ hs.last u k (hold u k hu)
  · intro c
    obtain ⟨fs, hfs, hpairs | ⟨n, f, hf, hcut, hopen⟩⟩ := hs.framed c
    · exact ⟨fs, hfs, Or.inl hpairs⟩
    · refine ⟨fs, hfs, Or.inr ⟨n, f, hf, hcut, fun d hd ↦ ?_⟩⟩
      obtain ⟨u, hu⟩ := hopen d hd
      have hut : u ≠ t := by
        rintro rfl
        obtain rfl : h = _ := Option.some.inj (ht.symm.trans hu)
        rw [hd] at hgone
        cases hgone
      exact ⟨u, by simpa only [Function.update_of_ne hut] using hu⟩

/-- On a connection with nobody between its two writes only whole calls have been written. -/
theorem Inv.pairs_of_clean (hs : Inv s) {t : T} {d : D} {f : Frame F} {c : ℕ}
    (hd : s.conn d = some c) (hclean : Clean s (.head t d f)) :
    ∃ fs : List (ℕ × Frame F), (∀ p ∈ fs, p.2 ∈ s.calls) ∧ s.written c = pairs fs := by
  obtain ⟨fs, hfs, hpairs | ⟨n, g, hg, hcut, hopen⟩⟩ := hs.framed c
  · exact ⟨fs, hfs, hpairs⟩
  · obtain ⟨u, hu⟩ := hopen d hd
    exact (hclean u _ hu hd).elim

theorem Inv.head [DecidableEq T] (hs : Inv s) {t : T} {d : D} {f : Frame F} {c : ℕ}
    (ht : s.half t = none) (hd : s.conn d = some c) (hclean : Clean s (.head t d f)) :
    Inv { s with
      written := Function.update s.written c (s.written c ++ [headPiece s.calls.length f])
      calls := s.calls ++ [f]
      half := Function.update s.half t (some ⟨s.calls.length, f, d, c⟩) } := by
  have hlen : (s.calls ++ [f]).length = s.calls.length + 1 := by simp
  have hcalls : ∀ g ∈ s.calls, g ∈ s.calls ++ [f] := fun g ↦ List.mem_append_left _
  have hf : f ∈ s.calls ++ [f] := by simp
  have hold : ∀ u k, Function.update s.half t (some ⟨s.calls.length, f, d, c⟩) u = some k →
      (u = t ∧ k = ⟨s.calls.length, f, d, c⟩) ∨ (u ≠ t ∧ s.half u = some k) := by
    intro u k hu
    by_cases hut : u = t
    · subst hut
      simp only [Function.update_self, Option.some.injEq] at hu
      exact Or.inl ⟨rfl, hu.symm⟩
    · rw [Function.update_of_ne hut] at hu
      exact Or.inr ⟨hut, hu⟩
  have hkeep : ∀ u k, s.half u = some k →
      Function.update s.half t (some ⟨s.calls.length, f, d, c⟩) u = some k := by
    intro u k hu
    have hut : u ≠ t := by
      rintro rfl
      rw [ht] at hu
      cases hu
    rwa [Function.update_of_ne hut]
  have hpiece : ∀ c', ∀ p ∈ Function.update s.written c (s.written c ++
      [headPiece s.calls.length f]) c', p ∈ s.written c' ∨ (c' = c ∧ p.call = s.calls.length) := by
    intro c' p hp
    by_cases hc : c' = c
    · subst hc
      rw [Function.update_self] at hp
      rcases List.mem_append.mp hp with hp | hp
      · exact Or.inl hp
      · obtain rfl := List.mem_singleton.mp hp
        exact Or.inr ⟨rfl, rfl⟩
    · rw [Function.update_of_ne hc] at hp
      exact Or.inl hp
  have hclt := hs.conn_lt d c hd
  obtain ⟨fs, hfs, hpairs⟩ := hs.pairs_of_clean hd hclean
  constructor
  · exact hs.conn_lt
  · exact hs.conn_inj
  · intro c' hc'
    have hne : c' ≠ c := (hclt.trans_le hc').ne'
    simpa only [Function.update_of_ne hne] using hs.fresh c' hc'
  · intro c' p hp
    rw [hlen]
    rcases hpiece c' p hp with hp | ⟨-, hp⟩
    · exact (hs.call_lt c' p hp).trans (Nat.lt_succ_self _)
    · rw [hp]
      exact Nat.lt_succ_self _
  · intro u k hu
    rw [hlen]
    rcases hold u k hu with ⟨rfl, rfl⟩ | ⟨-, hu⟩
    · exact ⟨hclt, Nat.lt_succ_self _⟩
    · exact ⟨(hs.half_lt u k hu).1, (hs.half_lt u k hu).2.trans (Nat.lt_succ_self _)⟩
  · intro u k hu
    rcases hold u k hu with ⟨rfl, rfl⟩ | ⟨-, hu⟩
    · exact hf
    · exact hcalls _ (hs.half_mem u k hu)
  · intro u v k k' hu hv heq
    rcases hold u k hu with ⟨rfl, rfl⟩ | ⟨-, hu⟩
    · rcases hold v k' hv with ⟨rfl, -⟩ | ⟨-, hv⟩
      · rfl
      · exact ((hs.half_lt v k' hv).2.ne heq.symm).elim
    · rcases hold v k' hv with ⟨-, rfl⟩ | ⟨-, hv⟩
      · exact ((hs.half_lt u k hu).2.ne heq).elim
      · exact hs.half_inj u v k k' hu hv heq
  · intro u k d' hu hd'
    rcases hold u k hu with ⟨rfl, rfl⟩ | ⟨-, hu⟩
    · exact hs.conn_inj d' d c hd' hd
    · exact hs.half_desc u k d' hu hd'
  · intro u k c' hu p hp heq
    rcases hpiece c' p hp with hmem | ⟨hc, hnew⟩
    · rcases hold u k hu with ⟨-, rfl⟩ | ⟨-, hu⟩
      · exact ((hs.call_lt c' p hmem).ne heq).elim
      · exact hs.half_conn u k c' hu p hmem heq
    · rcases hold u k hu with ⟨-, rfl⟩ | ⟨-, hu⟩
      · exact hc
      · exact ((hs.half_lt u k hu).2.ne (heq.symm.trans hnew)).elim
  · intro u k hu hopen
    rcases hold u k hu with ⟨rfl, rfl⟩ | ⟨-, hu⟩
    · refine ⟨fs, fun p hp ↦ hcalls _ (hfs p hp), ?_⟩
      simp only [Function.update_self, hpairs]
    · obtain ⟨gs, hgs, hlast⟩ := hs.last u k hu hopen
      have hne : k.conn ≠ c := fun heq ↦ hclean u k hu (heq ▸ hd)
      refine ⟨gs, fun p hp ↦ hcalls _ (hgs p hp), ?_⟩
      simpa only [Function.update_of_ne hne] using hlast
  · intro c'
    by_cases hc : c' = c
    · subst hc
      refine ⟨fs, fun p hp ↦ hcalls _ (hfs p hp), Or.inr ⟨s.calls.length, f, hf, ?_, ?_⟩⟩
      · simp only [Function.update_self, hpairs]
      · intro d' hd'
        obtain rfl := hs.conn_inj d' d c' hd' hd
        exact ⟨t, Function.update_self ..⟩
    · obtain ⟨gs, hgs, hwhole | ⟨n, g, hg, hcut, hopen⟩⟩ := hs.framed c'
      · refine ⟨gs, fun p hp ↦ hcalls _ (hgs p hp), Or.inl ?_⟩
        simpa only [Function.update_of_ne hc] using hwhole
      · refine ⟨gs, fun p hp ↦ hcalls _ (hgs p hp), Or.inr ⟨n, g, hcalls g hg, ?_, ?_⟩⟩
        · simpa only [Function.update_of_ne hc] using hcut
        · intro d' hd'
          obtain ⟨u, hu⟩ := hopen d' hd'
          exact ⟨u, hkeep u _ hu⟩

theorem Inv.body [DecidableEq T] (hs : Inv s) {t : T} {h : Half D F} (ht : s.half t = some h)
    (hd : s.conn h.desc = some h.conn) :
    Inv { s with
      written := Function.update s.written h.conn (s.written h.conn ++ [bodyPiece h.call h.frame])
      half := Function.update s.half t none } := by
  have hold : ∀ u k, Function.update s.half t none u = some k → u ≠ t ∧ s.half u = some k := by
    intro u k hu
    by_cases hut : u = t
    · subst hut
      simp at hu
    · rw [Function.update_of_ne hut] at hu
      exact ⟨hut, hu⟩
  have hother : ∀ u k, u ≠ t → s.half u = some k → k.call ≠ h.call :=
    fun u k hut hu heq ↦ hut (hs.half_inj u t k h hu ht heq)
  have hpiece : ∀ c', ∀ p ∈ Function.update s.written h.conn (s.written h.conn ++
      [bodyPiece h.call h.frame]) c', p ∈ s.written c' ∨ p.call = h.call := by
    intro c' p hp
    by_cases hc : c' = h.conn
    · subst hc
      rw [Function.update_self] at hp
      rcases List.mem_append.mp hp with hp | hp
      · exact Or.inl hp
      · obtain rfl := List.mem_singleton.mp hp
        exact Or.inr rfl
    · rw [Function.update_of_ne hc] at hp
      exact Or.inl hp
  obtain ⟨fs, hfs, hlast⟩ := hs.last t h ht hd
  constructor
  · exact hs.conn_lt
  · exact hs.conn_inj
  · intro c' hc'
    have hne : c' ≠ h.conn := ((hs.half_lt t h ht).1.trans_le hc').ne'
    simpa only [Function.update_of_ne hne] using hs.fresh c' hc'
  · intro c' p hp
    rcases hpiece c' p hp with hp | hp
    · exact hs.call_lt c' p hp
    · rw [hp]
      exact (hs.half_lt t h ht).2
  · exact fun u k hu ↦ hs.half_lt u k (hold u k hu).2
  · exact fun u k hu ↦ hs.half_mem u k (hold u k hu).2
  · exact fun u v k k' hu hv ↦ hs.half_inj u v k k' (hold u k hu).2 (hold v k' hv).2
  · exact fun u k d hu ↦ hs.half_desc u k d (hold u k hu).2
  · intro u k c' hu p hp heq
    obtain ⟨hut, hu⟩ := hold u k hu
    rcases hpiece c' p hp with hp | hp
    · exact hs.half_conn u k c' hu p hp heq
    · exact (hother u k hut hu (heq.symm.trans hp)).elim
  · intro u k hu hopen
    obtain ⟨hut, hu⟩ := hold u k hu
    obtain ⟨gs, hgs, hlast'⟩ := hs.last u k hu hopen
    have hne : k.conn ≠ h.conn := by
      intro heq
      rw [heq, hlast] at hlast'
      have hpieces := (List.append_inj' hlast' rfl).2
      simp only [headPiece, List.cons.injEq, Piece.mk.injEq] at hpieces
      exact hother u k hut hu hpieces.1.1.symm
    refine ⟨gs, hgs, ?_⟩
    simpa only [Function.update_of_ne hne] using hlast'
  · intro c'
    by_cases hc : c' = h.conn
    · subst hc
      refine ⟨fs ++ [(h.call, h.frame)], ?_, Or.inl ?_⟩
      · intro p hp
        rcases List.mem_append.mp hp with hp | hp
        · exact hfs p hp
        · obtain rfl := List.mem_singleton.mp hp
          exact hs.half_mem t h ht
      · simp only [Function.update_self, hlast, pairs_append_single]
    · obtain ⟨gs, hgs, hwhole | ⟨n, g, hg, hcut, hopen⟩⟩ := hs.framed c'
      · refine ⟨gs, hgs, Or.inl ?_⟩
        simpa only [Function.update_of_ne hc] using hwhole
      · refine ⟨gs, hgs, Or.inr ⟨n, g, hg, ?_, ?_⟩⟩
        · simpa only [Function.update_of_ne hc] using hcut
        · intro d' hd'
          obtain ⟨u, hu⟩ := hopen d' hd'
          have hut : u ≠ t := by
            rintro rfl
            obtain rfl : h = _ := Option.some.inj (ht.symm.trans hu)
            exact hc rfl
          exact ⟨u, by simpa only [Function.update_of_ne hut] using hu⟩

/-! ## Runs -/

section

variable [DecidableEq T] [DecidableEq D] {m : Move T D F}

/-- All that a step can do. -/
inductive Step (s : State T D F) : Move T D F → State T D F → Prop
  | head (t : T) (d : D) (f : Frame F) (c : ℕ) (ht : s.half t = none) (hd : s.conn d = some c) :
      Step s (.head t d f) { s with
        written := Function.update s.written c (s.written c ++ [headPiece s.calls.length f])
        calls := s.calls ++ [f]
        half := Function.update s.half t (some ⟨s.calls.length, f, d, c⟩) }
  | body (t : T) (h : Half D F) (c : ℕ) (ht : s.half t = some h) (hd : s.conn h.desc = some c) :
      Step s (.body t) { s with
        written := Function.update s.written c (s.written c ++ [bodyPiece h.call h.frame])
        half := Function.update s.half t none }
  | giveUp (t : T) (h : Half D F) (ht : s.half t = some h) (hgone : s.conn h.desc = none) :
      Step s (.giveUp t) { s with half := Function.update s.half t none }
  | connect (d : D) : Step s (.connect d)
      { s with conn := Function.update s.conn d (some s.opened), opened := s.opened + 1 }
  | close (d : D) : Step s (.close d) { s with conn := Function.update s.conn d none }

theorem step_cases (hstep : step s m = some s') : Step s m s' := by
  cases m with
  | head t d f =>
      simp only [step] at hstep
      split at hstep
      · next c ht hd =>
        cases hstep
        exact .head t d f c ht hd
      · cases hstep
  | body t =>
      simp only [step] at hstep
      split at hstep
      · next h ht =>
        obtain ⟨c, hd, rfl⟩ := Option.map_eq_some_iff.mp hstep
        exact .body t h c ht hd
      · cases hstep
  | giveUp t =>
      simp only [step] at hstep
      split at hstep
      · next h ht =>
        split at hstep
        · next hgone =>
          cases hstep
          exact .giveUp t h ht hgone
        · cases hstep
      · cases hstep
  | connect d =>
      cases hstep
      exact .connect d
  | close d =>
      cases hstep
      exact .close d

theorem Inv.step (hs : Inv s) (hclean : Clean s m) (hstep : step s m = some s') : Inv s' := by
  cases step_cases hstep with
  | head t d f c ht hd => exact hs.head ht hd hclean
  | body t h c ht hd =>
      obtain rfl : c = h.conn := Option.some.inj (hd.symm.trans (hclean h ht))
      exact hs.body ht hd
  | giveUp t h ht hgone => exact hs.giveUp ht hgone
  | connect d => exact hs.connect d
  | close d => exact hs.close d

/-- Nothing that was written is taken back. -/
theorem written_prefix_of_step (hstep : step s m = some s') (c : ℕ) :
    s.written c <+: s'.written c := by
  have hadd : ∀ c' p, s.written c <+: Function.update s.written c' (s.written c' ++ [p]) c := by
    intro c' p
    by_cases hc : c = c'
    · subst hc
      rw [Function.update_self]
      exact List.prefix_append _ _
    · rw [Function.update_of_ne hc]
  cases step_cases hstep with
  | head | body => apply hadd
  | giveUp | connect | close => exact List.prefix_rfl

theorem Spoiled.mono {ps qs : List (Piece β)} (h : Spoiled F ps) (hle : ps <+: qs) :
    Spoiled F qs := by
  obtain ⟨more, rfl⟩ := hle
  intro rest
  rw [List.append_assoc]
  exact h (more ++ rest)

theorem Spoiled.step {c : ℕ} (h : Spoiled F (s.written c)) (hstep : step s m = some s') :
    Spoiled F (s'.written c) := h.mono (written_prefix_of_step hstep c)

/-- A move that is not clean spoils a connection for good. -/
theorem Inv.spoiled_of_not_clean (hs : Inv s) (hstep : Writers.step s m = some s')
    (hbad : ¬ Clean s m) : ∃ c, Spoiled F (s'.written c) := by
  cases step_cases hstep with
  | head t d f c ht hd =>
      simp only [Clean, not_forall, ne_eq, not_not] at hbad
      obtain ⟨u, h, hu, hconn⟩ := hbad
      obtain rfl : c = h.conn := Option.some.inj (hd.symm.trans hconn)
      have hdesc := hs.half_desc u h d hu hd
      obtain ⟨fs, -, hlast⟩ := hs.last u h hu (hdesc ▸ hd)
      refine ⟨h.conn, ?_⟩
      simp only [Function.update_self, hlast, List.append_assoc]
      exact spoiled_pairs_append (spoiled_head_head _ _ rfl)
  | body t h c ht hd =>
      have hne : c ≠ h.conn := by
        rintro rfl
        apply hbad
        intro k hk
        obtain rfl : h = k := Option.some.inj (ht.symm.trans hk)
        exact hd
      refine ⟨c, ?_⟩
      obtain ⟨fs, -, hpairs | ⟨n, f, -, hcut, -⟩⟩ := hs.framed c
      · simp only [Function.update_self, hpairs]
        exact spoiled_pairs_append (spoiled_body _ rfl)
      · simp only [Function.update_self, hcut, List.append_assoc]
        apply spoiled_pairs_append
        apply spoiled_other_call
        intro heq
        apply hne
        exact hs.half_conn t h c ht (headPiece n f) (by simp [hcut]) heq
  | giveUp | connect | close => exact (hbad trivial).elim

end

/-! ## What a reader finds -/

/-- The bytes on a connection are whole frames of calls, and possibly the header of one more, which
is still at work if the connection is still open. -/
theorem Inv.bytes (hs : Inv s) (c : ℕ) :
    ∃ fs : List (Frame F), (∀ f ∈ fs, f ∈ s.calls) ∧
      (bytes (s.written c) = stream fs ∨ ∃ f ∈ s.calls, bytes (s.written c) = stream fs ++ f.head ∧
        ∀ d, s.conn d = some c → ∃ t n, s.half t = some ⟨n, f, d, c⟩) := by
  obtain ⟨fs, hfs, hwritten⟩ := hs.framed c
  refine ⟨fs.map Prod.snd, ?_, ?_⟩
  · intro f hf
    obtain ⟨p, hp, rfl⟩ := List.mem_map.mp hf
    exact hfs p hp
  · rcases hwritten with hpairs | ⟨n, f, hf, hcut, hopen⟩
    · left
      rw [hpairs, bytes_pairs]
    · right
      refine ⟨f, hf, ?_, fun d hd ↦ ?_⟩
      · rw [hcut, Writers.bytes, List.flatMap_append, ← Writers.bytes, bytes_pairs]
        simp [headPiece]
      · obtain ⟨t, ht⟩ := hopen d hd
        exact ⟨t, n, ht⟩

theorem Inv.whole (hs : Inv s) (c : ℕ) : Whole F (s.written c) := by
  obtain ⟨fs, -, hpairs | ⟨n, f, -, hcut, -⟩⟩ := hs.framed c
  · rw [hpairs]
    exact whole_pairs fs
  · rw [hcut, whole_pairs_append]
    exact .cut n f

end Writers
