import Mathlib.Data.List.Infix
import Mathlib.Data.Nat.Notation

/-!
# Frames in a byte stream

A frame is a header of fixed size that passes a check, followed by as many bytes as the header
names. A reader takes headers and bodies off the front of a stream; it may stop anywhere, and it
goes on behind a header that fails the check. `Scan F s acts r` says that a reader of `s` can have
done `acts` with `r` still unread.
-/

namespace Framing

variable {β : Type*}

structure Format (β : Type*) where
  headSize : ℕ
  headSize_pos : 0 < headSize
  ok : List β → Bool
  bodySize : List β → ℕ

structure Frame (F : Format β) where
  head : List β
  body : List β
  length_head : head.length = F.headSize
  ok : F.ok head = true
  length_body : body.length = F.bodySize head

/-- What a reader does with the bytes it took: look at a header, or hand on a body with the
header that named its size. -/
inductive Action (β : Type*)
  | head (h : List β)
  | body (h b : List β)
  deriving DecidableEq, Repr

variable {F : Format β}

def Frame.bytes (f : Frame F) : List β := f.head ++ f.body

def Frame.actions (f : Frame F) : List (Action β) := [.head f.head, .body f.head f.body]

def stream (fs : List (Frame F)) : List β := fs.flatMap Frame.bytes

def actions (fs : List (Frame F)) : List (Action β) := fs.flatMap Frame.actions

/-- The bodies handed on, with their headers. -/
def bodies (acts : List (Action β)) : List (List β × List β) :=
  acts.filterMap fun
    | .head _ => none
    | .body h b => some (h, b)

@[simp] theorem bodies_nil : bodies ([] : List (Action β)) = [] := rfl

@[simp] theorem bodies_head (h : List β) (acts : List (Action β)) :
    bodies (.head h :: acts) = bodies acts := rfl

@[simp] theorem bodies_body (h b : List β) (acts : List (Action β)) :
    bodies (.body h b :: acts) = (h, b) :: bodies acts := rfl

@[simp] theorem bodies_append (as bs : List (Action β)) :
    bodies (as ++ bs) = bodies as ++ bodies bs := by
  simp [bodies]

theorem bodies_actions (fs : List (Frame F)) :
    bodies (actions fs) = fs.map fun f ↦ (f.head, f.body) := by
  induction fs with
  | nil => rfl
  | cons f fs ih =>
      rw [actions, List.flatMap_cons, bodies_append]
      simp only [Frame.actions, bodies_head, bodies_body, bodies_nil, List.map_cons]
      exact congrArg _ ih

theorem bodies_mono {as bs : List (Action β)} (h : as <+: bs) : bodies as <+: bodies bs := by
  obtain ⟨cs, rfl⟩ := h
  exact ⟨bodies cs, (bodies_append as cs).symm⟩

inductive Scan (F : Format β) : List β → List (Action β) → List β → Prop
  | stop (s : List β) : Scan F s [] s
  | cut (h s : List β) (hlen : h.length = F.headSize) (hok : F.ok h = true) :
      Scan F (h ++ s) [.head h] s
  | frame (f : Frame F) {s : List β} {acts : List (Action β)} {r : List β}
      (hrest : Scan F s acts r) : Scan F (f.head ++ (f.body ++ s)) (f.actions ++ acts) r
  | reject (h : List β) {s : List β} {acts : List (Action β)} {r : List β}
      (hlen : h.length = F.headSize) (hbad : F.ok h = false) (hrest : Scan F s acts r) :
      Scan F (h ++ s) (.head h :: acts) r

namespace Scan

variable {s t r : List β} {acts : List (Action β)}

theorem eq_nil_of_short (h : Scan F s acts r) (hshort : s.length < F.headSize) : acts = [] := by
  cases h with
  | stop => rfl
  | cut h s hlen _ =>
      rw [List.length_append] at hshort
      omega
  | frame f _ =>
      have hlen := f.length_head
      rw [List.length_append] at hshort
      omega
  | reject h hlen _ _ =>
      rw [List.length_append] at hshort
      omega

/-- A reader whose stream ends inside the first body hands on nothing. -/
theorem prefix_of_short_body {h : List β} (hs : Scan F (h ++ t) acts r)
    (hlen : h.length = F.headSize) (hok : F.ok h = true) (hshort : t.length < F.bodySize h) :
    acts <+: [.head h] := by
  generalize hst : h ++ t = s at hs
  cases hs with
  | stop => exact List.nil_prefix
  | cut h' s hlen' _ =>
      obtain ⟨rfl, -⟩ := List.append_inj hst (hlen.trans hlen'.symm)
      exact List.prefix_rfl
  | frame f _ =>
      obtain ⟨rfl, rfl⟩ := List.append_inj hst (hlen.trans f.length_head.symm)
      have := f.length_body
      rw [List.length_append] at hshort
      omega
  | reject h' hlen' hbad _ =>
      obtain ⟨rfl, -⟩ := List.append_inj hst (hlen.trans hlen'.symm)
      rw [hok] at hbad
      cases hbad

/-- A reader of a stream that begins with a frame stops inside the frame or behind it. -/
theorem of_frame (f : Frame F) (h : Scan F (f.head ++ (f.body ++ s)) acts r) :
    acts <+: f.actions ∨ ∃ acts', acts = f.actions ++ acts' ∧ Scan F s acts' r := by
  generalize hst : f.head ++ (f.body ++ s) = st at h
  cases h with
  | stop => exact Or.inl List.nil_prefix
  | cut h' s' hlen' _ =>
      obtain ⟨rfl, -⟩ := List.append_inj hst (f.length_head.trans hlen'.symm)
      exact Or.inl ⟨[.body f.head f.body], rfl⟩
  | frame g hrest =>
      obtain ⟨hhead, hbs⟩ := List.append_inj hst (f.length_head.trans g.length_head.symm)
      have hlen : f.body.length = g.body.length := by
        rw [f.length_body, g.length_body, hhead]
      obtain ⟨hbody, rfl⟩ := List.append_inj hbs hlen
      refine Or.inr ⟨_, ?_, hrest⟩
      simp only [Frame.actions, hhead, hbody]
  | reject h' hlen' hbad _ =>
      obtain ⟨rfl, -⟩ := List.append_inj hst (f.length_head.trans hlen'.symm)
      rw [f.ok] at hbad
      cases hbad

/-- A reader of a stream that begins with whole frames has done a part of what they call for, or
all of it and more. -/
theorem of_stream (fs : List (Frame F)) (h : Scan F (stream fs ++ s) acts r) :
    acts <+: actions fs ∨ ∃ acts', acts = actions fs ++ acts' ∧ Scan F s acts' r := by
  induction fs generalizing acts with
  | nil => exact Or.inr ⟨acts, rfl, h⟩
  | cons f fs ih =>
      have hst : stream (f :: fs) ++ s = f.head ++ (f.body ++ (stream fs ++ s)) := by
        simp [stream, Frame.bytes, List.append_assoc]
      rw [hst] at h
      have hacts : actions (f :: fs) = f.actions ++ actions fs := List.flatMap_cons
      rw [hacts]
      rcases of_frame f h with hpre | ⟨acts', rfl, hrest⟩
      · exact Or.inl (hpre.trans (List.prefix_append _ _))
      · rcases ih hrest with hpre | ⟨acts'', rfl, hrest'⟩
        · exact Or.inl ((List.prefix_append_right_inj _).mpr hpre)
        · exact Or.inr ⟨acts'', (List.append_assoc _ _ _).symm, hrest'⟩

end Scan

end Framing
