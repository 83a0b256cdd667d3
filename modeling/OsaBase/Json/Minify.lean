import OsaBase.Json.Texts

/-!
# `cJSON_Minify`

The text is minified where it stands: what is written never reaches what is still to be read. A
text with comments becomes a text of the same value without comments and whitespace.
-/

open Json

namespace OsaBase

/-! ## The loop -/

/-- The inner loop that `cJSON_Minify` is in, or `text` for none of them. -/
inductive MinifyLoop
  | text
  | line
  | block
  /-- `json+=2`, half of it done -/
  | close
  | string
  /-- behind a backslash -/
  | escape
  deriving DecidableEq, Repr

/-- The block that holds the text and its NUL, and the two pointers into it. -/
structure Minifier where
  memory : List UInt8
  json : ℕ
  into : ℕ
  deriving DecidableEq, Repr

namespace Minifier

/-- `json++` -/
def skip (m : Minifier) : Minifier := { m with json := m.json + 1 }

/-- `*into++=*json++`, where `c` is `*json`. -/
def copy (m : Minifier) (c : UInt8) : Minifier :=
  ⟨m.memory.set m.into c, m.json + 1, m.into + 1⟩

/-- What a run comes to: the block, or a pointer behind it. -/
inductive Outcome
  | done (memory : List UInt8)
  | overrun
  deriving DecidableEq, Repr

/-- One round of a loop; nothing where the pointer is behind the block. -/
def step (s : MinifyLoop) (m : Minifier) : Option (MinifyLoop × Minifier) := do
  let c ← m.memory[m.json]?
  match s with
  | .text =>
    if c = byte ' ' ∨ c = byte '\t' ∨ c = byte '\r' ∨ c = byte '\n' then some (.text, m.skip)
    else if c = byte '/' ∧ m.memory[m.json + 1]? = some (byte '/') then some (.line, m)
    else if c = byte '/' ∧ m.memory[m.json + 1]? = some (byte '*') then some (.block, m)
    else if c = byte '"' then some (.string, m.copy c)
    else some (.text, m.copy c)
  | .line => if c ≠ 0 ∧ c ≠ byte '\n' then some (.line, m.skip) else some (.text, m)
  | .block =>
    if c ≠ 0 ∧ ¬(c = byte '*' ∧ m.memory[m.json + 1]? = some (byte '/')) then
      some (.block, m.skip)
    else some (.close, m.skip)
  | .close => some (.text, m.skip)
  | .string =>
    if c ≠ 0 ∧ c ≠ byte '"' then
      if c = byte '\\' then some (.escape, m.copy c) else some (.string, m.copy c)
    else some (.text, m.copy c)
  | .escape => some (.string, m.copy c)

/-- `none` is a run that is not over. -/
def run : ℕ → MinifyLoop → Minifier → Option Outcome
  | 0, _, _ => none
  | fuel + 1, s, m =>
    if s = .text ∧ m.memory[m.json]? = some 0 then some (.done (m.memory.set m.into 0))
    else
      match m.step s with
      | none => some .overrun
      | some r => run fuel r.1 r.2

end Minifier

/-- What becomes of the block. -/
def cJsonMinify (memory : List UInt8) : Option Minifier.Outcome :=
  Minifier.run (2 * memory.length + 2) .text ⟨memory, 0, 0⟩

/-! ## The text that is left -/

/-- The text without comments and whitespace; none where a comment or a string does not end. -/
def strip : MinifyLoop → List UInt8 → Option (List UInt8)
  | .text, [] => some []
  | .line, [] => some []
  | .block, [] => none
  | .close, [] => none
  | .string, [] => none
  | .escape, [] => none
  | .text, c :: t =>
    if IsWs c then strip .text t
    else if c = byte '/' ∧ peek t = byte '/' then strip .line t
    else if c = byte '/' ∧ peek t = byte '*' then strip .block t
    else if c = byte '"' then (strip .string t).map (c :: ·)
    else (strip .text t).map (c :: ·)
  | .line, c :: t => if c = byte '\n' then strip .text t else strip .line t
  | .block, c :: t => if c = byte '*' ∧ peek t = byte '/' then strip .close t else strip .block t
  | .close, _ :: t => strip .text t
  | .string, c :: t =>
    if c = byte '"' then (strip .text t).map (c :: ·)
    else if c = byte '\\' then (strip .escape t).map (c :: ·)
    else (strip .string t).map (c :: ·)
  | .escape, c :: t => (strip .string t).map (c :: ·)

/-! ## In place -/

namespace Minifier

/-- The block: what is written, what was read and is not overwritten yet, and what is to be read. -/
structure At (m : Minifier) (out gap rest : List UInt8) : Prop where
  memory : m.memory = out ++ (gap ++ rest)
  into : m.into = out.length
  json : m.json = out.length + gap.length

variable {m : Minifier} {out gap rest t : List UInt8} {c : UInt8}

theorem At.get (h : m.At out gap rest) (i : ℕ) : m.memory[m.json + i]? = rest[i]? := by
  rw [h.memory, h.json, ← List.append_assoc, List.getElem?_append_right]
  · congr 1
    rw [List.length_append]
    omega
  · rw [List.length_append]
    omega

theorem At.skip (h : m.At out gap (c :: rest)) : m.skip.At out (gap ++ [c]) rest where
  memory := by
    rw [Minifier.skip, h.memory, List.append_assoc gap]
    rfl
  into := h.into
  json := by
    rw [Minifier.skip, h.json, List.length_append]
    rfl

theorem At.copy (h : m.At out gap (c :: rest)) : ∃ gap', (m.copy c).At (out ++ [c]) gap' rest := by
  obtain ⟨hmemory, hinto, hjson⟩ := h
  cases gap with
  | nil =>
      refine ⟨[], ?_, ?_, ?_⟩
      · simp [Minifier.copy, hmemory, hinto]
      · simp [Minifier.copy, hinto]
      · simp [Minifier.copy, hjson]
  | cons g gap =>
      refine ⟨gap ++ [c], ?_, ?_, ?_⟩
      · simp [Minifier.copy, hmemory, hinto]
      · simp [Minifier.copy, hinto]
      · simp [Minifier.copy, hjson]
        omega

/-- What a run from here comes to, if `o` is what the rest of the text is stripped to. -/
def Leaves (out : List UInt8) (length : ℕ) : Option (List UInt8) → Option Outcome → Prop
  | none, r => r = some .overrun
  | some o, r => ∃ tail, r = some (.done (out ++ (o ++ 0 :: tail))) ∧
      (out ++ (o ++ 0 :: tail)).length = length

theorem Leaves.map {length : ℕ} {o : Option (List UInt8)} {r : Option Outcome}
    (h : Leaves (out ++ [c]) length o r) : Leaves out length (o.map (c :: ·)) r := by
  cases o with
  | none => exact h
  | some o =>
      obtain ⟨tail, hr, hlen⟩ := h
      rw [List.append_assoc] at hr hlen
      exact ⟨tail, hr, hlen⟩

theorem At.finish (h : m.At out gap [0]) :
    Leaves out m.memory.length (some []) (some (.done (m.memory.set m.into 0))) := by
  obtain ⟨hmemory, hinto, -⟩ := h
  cases gap with
  | nil => exact ⟨[], by simp [hmemory, hinto], by simp [hmemory]⟩
  | cons g gap => exact ⟨gap ++ [0], by simp [hmemory, hinto], by simp [hmemory]⟩

variable {s s' : MinifyLoop} {m' : Minifier} {fuel : ℕ}

theorem run_next (hstep : m.step s = some (s', m'))
    (hnul : ¬(s = .text ∧ m.memory[m.json]? = some 0)) :
    run (fuel + 1) s m = run fuel s' m' := by
  rw [run, if_neg hnul, hstep]

theorem run_overrun (hget : m.memory[m.json]? = none) : run (fuel + 1) s m = some .overrun := by
  have hstep : m.step s = none := by
    rw [step, hget]
    rfl
  rw [run, hget, hstep, if_neg (by simp)]

theorem step_eq (h : m.At out gap (c :: rest)) : m.memory[m.json]? = some c := h.get 0

theorem step_next (h : m.At out gap (c :: (t ++ [0]))) :
    m.memory[m.json + 1]? = some (peek t) := by
  rw [h.get 1]
  cases t <;> rfl

/-- The loops at the end of the text. -/
theorem run_end (h : m.At out gap [0]) (s : MinifyLoop) :
    Leaves out m.memory.length (strip s []) (run (fuel + 2) s m) := by
  have hget := step_eq h
  have hfinish : ∀ k, run (k + 1) .text m = some (.done (m.memory.set m.into 0)) := fun k ↦ by
    rw [run, if_pos ⟨rfl, hget⟩]
  obtain ⟨gap', hcopy⟩ := h.copy
  have hbehind : (m.copy 0).memory[(m.copy 0).json]? = none := hcopy.get 0
  have hbehind' : m.skip.memory[m.skip.json]? = none := h.skip.get 0
  cases s with
  | text =>
      rw [hfinish]
      exact h.finish
  | line =>
      have hstep : m.step .line = some (.text, m) := by
        rw [step, hget]
        rfl
      rw [run_next hstep (by simp), hfinish]
      exact h.finish
  | block =>
      have hstep : m.step .block = some (.close, m.skip) := by
        rw [step, hget]
        rfl
      rw [run_next hstep (by simp)]
      exact run_overrun hbehind'
  | close =>
      have hstep : m.step .close = some (.text, m.skip) := by
        rw [step, hget]
        rfl
      rw [run_next hstep (by simp)]
      exact run_overrun hbehind'
  | string =>
      have hstep : m.step .string = some (.text, m.copy 0) := by
        rw [step, hget]
        rfl
      rw [run_next hstep (by simp)]
      exact run_overrun hbehind
  | escape =>
      have hstep : m.step .escape = some (.string, m.copy 0) := by
        rw [step, hget]
        rfl
      rw [run_next hstep (by simp)]
      exact run_overrun hbehind

/-- What is proved of a rest of the text, in every loop. -/
def Strips (t : List UInt8) : Prop :=
  ∀ (s : MinifyLoop) (m : Minifier) (out gap : List UInt8) (fuel : ℕ), m.At out gap (t ++ [0]) →
    2 * t.length + 2 ≤ fuel → Leaves out m.memory.length (strip s t) (run fuel s m)

theorem strips_skip (ih : Strips t) (h : m.At out gap (c :: (t ++ [0]))) (s : MinifyLoop)
    (hfuel : 2 * t.length + 2 ≤ fuel) :
    Leaves out m.memory.length (strip s t) (run fuel s m.skip) := ih s _ out _ fuel h.skip hfuel

theorem strips_copy (ih : Strips t) (h : m.At out gap (c :: (t ++ [0]))) (s : MinifyLoop)
    (hfuel : 2 * t.length + 2 ≤ fuel) :
    Leaves out m.memory.length ((strip s t).map (c :: ·)) (run fuel s (m.copy c)) := by
  obtain ⟨gap', hcopy⟩ := h.copy
  have hlen : (m.copy c).memory.length = m.memory.length := List.length_set
  rw [← hlen]
  exact (ih s _ _ _ fuel hcopy hfuel).map

theorem strips_text (ih : Strips t) (h : m.At out gap (c :: (t ++ [0]))) (hc : c ≠ 0)
    (hfuel : 2 * t.length + 2 ≤ fuel) :
    Leaves out m.memory.length (strip .text (c :: t)) (run (fuel + 2) .text m) := by
  have hget := step_eq h
  have hnext := step_next h
  have hnul : ¬(MinifyLoop.text = .text ∧ m.memory[m.json]? = some 0) := by
    rw [hget]
    exact fun h ↦ hc (Option.some_inj.mp h.2)
  have hws : c = byte ' ' ∨ c = byte '\t' ∨ c = byte '\r' ∨ c = byte '\n' ↔ IsWs c := by
    rw [IsWs]
    tauto
  have hstep : m.step .text =
      if IsWs c then some (.text, m.skip)
      else if c = byte '/' ∧ peek t = byte '/' then some (.line, m)
      else if c = byte '/' ∧ peek t = byte '*' then some (.block, m)
      else if c = byte '"' then some (.string, m.copy c)
      else some (.text, m.copy c) := by
    rw [step, hget]
    simp only [Option.bind_some, Option.bind_eq_bind, hws, hnext, Option.some_inj]
  rw [strip]
  split_ifs at hstep ⊢ with hspace hline hblock hquote
  · rw [run_next hstep hnul]
    exact strips_skip ih h .text (by omega)
  · have hstep' : m.step .line = some (.line, m.skip) := by
      rw [step, hget, hline.1]
      rfl
    rw [run_next hstep hnul, run_next hstep' (by simp)]
    exact strips_skip ih h .line (by omega)
  · have hstep' : m.step .block = some (.block, m.skip) := by
      rw [step, hget, hblock.1]
      rfl
    rw [run_next hstep hnul, run_next hstep' (by simp)]
    exact strips_skip ih h .block (by omega)
  · rw [run_next hstep hnul]
    exact strips_copy ih h .string (by omega)
  · rw [run_next hstep hnul]
    exact strips_copy ih h .text (by omega)

theorem strips_cons (ih : Strips t) (hc : c ≠ 0) : Strips (c :: t) := by
  intro s m out gap fuel h hfuel
  obtain ⟨k, rfl⟩ : ∃ k, fuel = k + 2 := ⟨fuel - 2, by omega⟩
  rw [List.length_cons] at hfuel
  have hle : 2 * t.length + 2 ≤ k := by omega
  have hget := step_eq h
  have hnext := step_next h
  cases s with
  | text => exact strips_text ih h hc hle
  | line =>
      rw [strip]
      split
      · next hnewline =>
        have hstep : m.step .line = some (.text, m) := by
          rw [step, hget, hnewline]
          rfl
        have hstep' : m.step .text = some (.text, m.skip) := by
          rw [step, hget, hnewline]
          rfl
        have hnul : ¬(MinifyLoop.text = .text ∧ m.memory[m.json]? = some 0) := by
          rw [hget]
          exact fun h ↦ hc (Option.some_inj.mp h.2)
        rw [run_next hstep (by simp), run_next hstep' hnul]
        exact strips_skip ih h .text hle
      · next hnewline =>
        have hstep : m.step .line = some (.line, m.skip) := by
          rw [step, hget]
          exact if_pos ⟨hc, hnewline⟩
        rw [run_next hstep (by simp)]
        exact strips_skip ih h .line (by omega)
  | block =>
      rw [strip]
      split
      · next hclose =>
        have hstep : m.step .block = some (.close, m.skip) := by
          rw [step, hget]
          exact if_neg fun hne ↦ hne.2 ⟨hclose.1, hclose.2 ▸ hnext⟩
        rw [run_next hstep (by simp)]
        exact strips_skip ih h .close (by omega)
      · next hclose =>
        have hstep : m.step .block = some (.block, m.skip) := by
          rw [step, hget]
          refine if_pos ⟨hc, fun heq ↦ hclose ⟨heq.1, ?_⟩⟩
          rw [hnext] at heq
          exact Option.some_inj.mp heq.2
        rw [run_next hstep (by simp)]
        exact strips_skip ih h .block (by omega)
  | close =>
      have hstep : m.step .close = some (.text, m.skip) := by
        rw [step, hget]
        rfl
      rw [run_next hstep (by simp), strip]
      exact strips_skip ih h .text (by omega)
  | string =>
      have hstep : m.step .string =
          if c = byte '"' then some (.text, m.copy c)
          else if c = byte '\\' then some (.escape, m.copy c)
          else some (.string, m.copy c) := by
        rw [step, hget]
        simp only [Option.bind_some, Option.bind_eq_bind, hc, ne_eq, not_false_eq_true, true_and,
          ite_not]
      rw [strip]
      split_ifs at hstep ⊢ with hquote hslash
      · rw [run_next hstep (by simp)]
        exact strips_copy ih h .text (by omega)
      · rw [run_next hstep (by simp)]
        exact strips_copy ih h .escape (by omega)
      · rw [run_next hstep (by simp)]
        exact strips_copy ih h .string (by omega)
  | escape =>
      have hstep : m.step .escape = some (.string, m.copy c) := by
        rw [step, hget]
        rfl
      rw [run_next hstep (by simp), strip]
      exact strips_copy ih h .string (by omega)

theorem strips (ht : 0 ∉ t) : Strips t := by
  induction t with
  | nil =>
      intro s m out gap fuel h hfuel
      obtain ⟨k, rfl⟩ : ∃ k, fuel = k + 2 := ⟨fuel - 2, by omega⟩
      exact run_end h s
  | cons c t ih =>
      rw [List.mem_cons, not_or] at ht
      exact strips_cons (ih ht.2) (Ne.symm ht.1)

end Minifier

theorem cJsonMinify_leaves {t : List UInt8} (ht : 0 ∉ t) :
    Minifier.Leaves [] (t ++ [0]).length (strip .text t) (cJsonMinify (t ++ [0])) :=
  Minifier.strips ht .text ⟨t ++ [0], 0, 0⟩ [] [] (2 * (t ++ [0]).length + 2) ⟨rfl, rfl, rfl⟩
    (by rw [List.length_append]; omega)

/-- The block afterwards holds the stripped text and its NUL, however they overlap with the text
that was there; where a comment or a string does not end, the pointers run behind the block. -/
theorem cJsonMinify_eq {t : List UInt8} (ht : 0 ∉ t) :
    match strip .text t with
    | none => cJsonMinify (t ++ [0]) = some .overrun
    | some o => ∃ tail, cJsonMinify (t ++ [0]) = some (.done (o ++ 0 :: tail)) ∧
        (o ++ 0 :: tail).length = (t ++ [0]).length := by
  have h := cJsonMinify_leaves ht
  cases hstrip : strip .text t with
  | none =>
      rw [hstrip] at h
      exact h
  | some o =>
      rw [hstrip] at h
      exact h

theorem cJsonMinify_eq_array :
    ∃ tail,
      cJsonMinify [byte '[', byte ' ', byte ']', 0] =
        some (.done ([byte '[', byte ']'] ++ 0 :: tail)) ∧
      ([byte '[', byte ']'] ++ 0 :: tail).length = 4 :=
  cJsonMinify_eq (t := [byte '[', byte ' ', byte ']']) (by decide)

end OsaBase
