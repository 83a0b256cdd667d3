import Mathlib.Data.Finset.Card
import Mathlib.Data.Finset.Insert
import Mathlib.Data.Finset.Range
import Mathlib.Logic.Function.Basic

/-!
# Descriptor tables

A process has a finite set of open descriptors, and an open gets the lowest number outside of it. A
pipe takes two numbers this way. `Makes` says what a `pipe` call gives, `Adds` what is left of it
when other pipes come and go.
-/

namespace Descriptor

/-- The lowest number outside the set. -/
def lowest (s : Finset ℕ) : ℕ := ((List.range (s.card + 1)).find? (· ∉ s)).getD 0

theorem exists_le_card_notMem (s : Finset ℕ) : ∃ n < s.card + 1, n ∉ s := by
  by_contra hall
  push Not at hall
  have hsub : Finset.range (s.card + 1) ⊆ s := fun n hn ↦ hall n (Finset.mem_range.mp hn)
  have hcard := Finset.card_le_card hsub
  rw [Finset.card_range] at hcard
  omega

theorem lowest_spec (s : Finset ℕ) : lowest s ∉ s ∧ ∀ n < lowest s, n ∈ s := by
  cases hfind : (List.range (s.card + 1)).find? (· ∉ s) with
  | none =>
      obtain ⟨n, hn, hs⟩ := exists_le_card_notMem s
      rw [List.find?_eq_none] at hfind
      exact absurd hs (by simpa using hfind n (List.mem_range.mpr hn))
  | some n =>
      obtain ⟨hn, -, hlt⟩ := List.find?_range_eq_some.mp hfind
      simp only [lowest, hfind, Option.getD_some]
      exact ⟨by simpa using hn, fun m hm ↦ by simpa using hlt m hm⟩

theorem lowest_notMem (s : Finset ℕ) : lowest s ∉ s := (lowest_spec s).1

theorem mem_of_lt_lowest {s : Finset ℕ} {n : ℕ} (h : n < lowest s) : n ∈ s := (lowest_spec s).2 n h

inductive Side
  | read
  | write
  deriving DecidableEq, Repr

/-- The open descriptors; `ends` has the pipe and the side of those that are ends of pipes, and
`made` counts the pipes. -/
structure Table where
  opened : Finset ℕ
  ends : ℕ → Option (ℕ × Side)
  made : ℕ

namespace Table

/-- A new descriptor for one side of the newest pipe. -/
def assign (t : Table) (side : Side) : Table :=
  { t with
    opened := insert (lowest t.opened) t.opened
    ends := Function.update t.ends (lowest t.opened) (some (t.made, side)) }

/-- `pipe`: the read end is opened first. -/
def pipe (t : Table) : (ℕ × ℕ) × Table :=
  let t₁ := t.assign .read
  ((lowest t.opened, lowest t₁.opened), { t₁.assign .write with made := t.made + 1 })

def closed (t : Table) (fd : ℕ) : Table :=
  { t with opened := t.opened.erase fd, ends := Function.update t.ends fd none }

/-- `close`, which fails on a descriptor that is not open. -/
def close (t : Table) (fd : ℕ) : Option Table := if fd ∈ t.opened then some (t.closed fd) else none

/-- The two ends of one pipe. -/
def Connected (t : Table) (p : ℕ × ℕ) : Prop :=
  ∃ k, t.ends p.1 = some (k, .read) ∧ t.ends p.2 = some (k, .write)

variable {t t' u : Table} {p q : ℕ × ℕ} {fd : ℕ} {base : Finset ℕ}

@[simp] theorem closed_opened : (t.closed fd).opened = t.opened.erase fd := rfl

theorem Connected.closed (h : t.Connected p) (hfst : fd ≠ p.1) (hsnd : fd ≠ p.2) :
    (t.closed fd).Connected p := by
  obtain ⟨k, hread, hwrite⟩ := h
  refine ⟨k, ?_, ?_⟩
  · exact (Function.update_of_ne hfst.symm none t.ends).trans hread
  · exact (Function.update_of_ne hsnd.symm none t.ends).trans hwrite

/-- What is open is the set and, connected with each other, the two descriptors. -/
structure Adds (t : Table) (p : ℕ × ℕ) (base : Finset ℕ) : Prop where
  lt : p.1 < p.2
  fst_notMem : p.1 ∉ base
  snd_notMem : p.2 ∉ base
  opened : t.opened = insert p.2 (insert p.1 base)
  connected : t.Connected p

/-- A `pipe` call adds the two lowest free numbers. -/
structure Makes (t : Table) (p : ℕ × ℕ) (t' : Table) : Prop extends Adds t' p t.opened where
  below : ∀ n < p.1, n ∈ t.opened
  between : ∀ n < p.2, n = p.1 ∨ n ∈ t.opened

theorem makes_pipe (t : Table) : t.Makes t.pipe.1 t.pipe.2 := by
  have hfst := lowest_notMem t.opened
  obtain ⟨hsnd, hlow⟩ := lowest_spec (insert (lowest t.opened) t.opened)
  simp only [Finset.mem_insert, not_or] at hsnd hlow
  refine ⟨⟨?_, hfst, hsnd.2, rfl, t.made, ?_, ?_⟩, fun n ↦ mem_of_lt_lowest, hlow⟩
  · rcases lt_trichotomy (lowest t.opened) (lowest (insert (lowest t.opened) t.opened)) with
      h | h | h
    · exact h
    · exact (hsnd.1 h.symm).elim
    · exact (hsnd.2 (mem_of_lt_lowest h)).elim
  · simp [pipe, assign, Ne.symm hsnd.1]
  · simp [pipe, assign]

/-- Every number up to the write end is open now. -/
theorem Makes.mem_of_le (h : t.Makes p t') {n : ℕ} (hn : n ≤ p.2) : n ∈ t'.opened := by
  rw [h.opened, Finset.mem_insert, Finset.mem_insert]
  rcases hn.lt_or_eq with hlt | heq
  · exact Or.inr (h.between n hlt)
  · exact Or.inl heq

/-- A pipe made while this one is open lies above it. -/
theorem Makes.lt_next (h : t.Makes p t') (hq : q.1 ∉ t'.opened) : p.2 < q.1 := by
  by_contra hle
  exact hq (h.mem_of_le (not_lt.mp hle))

theorem Adds.fst_mem (h : t.Adds p base) : p.1 ∈ t.opened := by
  rw [h.opened]
  exact Finset.mem_insert_of_mem (Finset.mem_insert_self _ _)

theorem Adds.snd_mem (h : t.Adds p base) : p.2 ∈ t.opened := by
  rw [h.opened]
  exact Finset.mem_insert_self _ _

theorem Adds.subset (h : t.Adds p base) : base ⊆ t.opened := by
  rw [h.opened]
  exact (Finset.subset_insert _ _).trans (Finset.subset_insert _ _)

/-- Both ends are closed. -/
def closedPair (t : Table) (p : ℕ × ℕ) : Table := (t.closed p.1).closed p.2

theorem Adds.closedPair_opened (h : t.Adds p base) : (t.closedPair p).opened = base := by
  have hne : p.2 ≠ p.1 := h.lt.ne'
  rw [closedPair, closed_opened, closed_opened, h.opened, Finset.erase_insert_of_ne hne,
    Finset.erase_insert h.fst_notMem, Finset.erase_insert h.snd_notMem]

/-- A pair stays when an older one is closed. -/
theorem Adds.closedPair (hold : t.Adds p base) (h : u.Adds q t.opened) :
    (u.closedPair p).Adds q base := by
  have hne : ∀ fd ∈ t.opened, q.1 ≠ fd ∧ q.2 ≠ fd := by
    intro fd hfd
    exact ⟨fun heq ↦ h.fst_notMem (heq ▸ hfd), fun heq ↦ h.snd_notMem (heq ▸ hfd)⟩
  obtain ⟨hne₁, hne₂⟩ := hne p.1 hold.fst_mem
  obtain ⟨hne₃, hne₄⟩ := hne p.2 hold.snd_mem
  refine ⟨h.lt, fun hq ↦ h.fst_notMem (hold.subset hq),
    fun hq ↦ h.snd_notMem (hold.subset hq), ?_, ?_⟩
  · have hbase := hold.closedPair_opened
    rw [Table.closedPair, closed_opened, closed_opened] at hbase ⊢
    rw [h.opened, Finset.erase_insert_of_ne hne₂, Finset.erase_insert_of_ne hne₁,
      Finset.erase_insert_of_ne hne₄, Finset.erase_insert_of_ne hne₃, hbase]
  · exact (h.connected.closed hne₁.symm hne₂.symm).closed hne₃.symm hne₄.symm

end Table

end Descriptor
