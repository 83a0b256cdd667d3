import Mathlib.Data.List.Perm.Basic
import Mathlib.Data.List.Nodup

/-!
# Slots that go round between a producer and a consumer

A slot waits empty in a queue, is in the producer's hand while it is filled, waits full in a second
queue, and is in the consumer's hand while it is used. Each move takes one slot from one of the four
places to the next, so no slot is ever in two places and none is lost.
-/

namespace Pool

structure Places (ι : Type*) where
  empty : List ι
  filling : Option ι
  full : List ι
  draining : Option ι

variable {ι : Type*}

def Places.all (p : Places ι) : List ι :=
  p.empty ++ p.filling.toList ++ p.full ++ p.draining.toList

/-- One slot moves on. -/
inductive Move : Places ι → Places ι → Prop
  | take (i : ι) (es fs : List ι) (u : Option ι) : Move ⟨i :: es, none, fs, u⟩ ⟨es, some i, fs, u⟩
  | give (i : ι) (es fs : List ι) (u : Option ι) :
      Move ⟨es, some i, fs, u⟩ ⟨es, none, fs ++ [i], u⟩
  | fetch (i : ι) (es fs : List ι) (f : Option ι) : Move ⟨es, f, i :: fs, none⟩ ⟨es, f, fs, some i⟩
  | putBack (i : ι) (es fs : List ι) (f : Option ι) :
      Move ⟨es, f, fs, some i⟩ ⟨es ++ [i], f, fs, none⟩

theorem Move.perm {p q : Places ι} (h : Move p q) : p.all.Perm q.all := by
  cases h with
  | take i es fs u =>
      simp only [Places.all, Option.toList_none, Option.toList_some, List.append_nil]
      apply List.Perm.append_right
      apply List.Perm.append_right
      exact (List.perm_append_singleton i es).symm
  | give i es fs u =>
      simp only [Places.all, Option.toList_none, Option.toList_some, List.append_nil]
      apply List.Perm.append_right
      rw [List.append_assoc]
      apply List.Perm.append_left
      exact (List.perm_append_singleton i fs).symm
  | fetch i es fs f =>
      simp only [Places.all, Option.toList_none, Option.toList_some, List.append_nil]
      rw [List.append_assoc _ fs]
      apply List.Perm.append_left
      exact (List.perm_append_singleton i fs).symm
  | putBack i es fs f =>
      simp only [Places.all, Option.toList_none, Option.toList_some, List.append_nil,
        List.append_assoc]
      apply List.Perm.append_left
      rw [← List.append_assoc]
      exact List.perm_append_comm

/-- A slot that waits empty is neither in the producer's hand nor waiting full. -/
theorem Places.not_custody_of_empty {p : Places ι} (hp : p.all.Nodup) {i : ι} (hi : i ∈ p.empty) :
    p.filling ≠ some i ∧ i ∉ p.full ∧ p.draining ≠ some i := by
  simp only [Places.all, List.nodup_append, List.mem_append, Option.mem_toList] at hp
  obtain ⟨⟨⟨-, -, hfill⟩, -, hfull⟩, -, huse⟩ := hp
  refine ⟨?_, ?_, ?_⟩
  · intro h
    exact hfill i hi i h rfl
  · intro h
    exact hfull i (Or.inl hi) i h rfl
  · intro h
    exact huse i (Or.inl (Or.inl hi)) i h rfl

end Pool
