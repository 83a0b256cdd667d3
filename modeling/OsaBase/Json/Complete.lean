import Mathlib.Data.List.TakeWhile
import OsaBase.Json.Strings

/-!
# Strings with complete escapes

Where the escapes in the strings of a text are complete, `parse_string` stays in the text and in the
block that it allocates.
-/

open Json

namespace OsaBase

variable {t p q r : List UInt8}

/-! ## Complete escapes -/

/-- Where a text is cut: outside of strings, in a string, behind a backslash, or in front of one
more than so many hexadecimal digits. -/
inductive Lex
  | outside
  | string
  | escape
  | hex (n : ℕ)

def Lex.next : Lex → UInt8 → Option Lex
  | .outside, c => some (if c = byte '"' then .string else .outside)
  | .string, c =>
    some (if c = byte '"' then .outside else if c = byte '\\' then .escape else .string)
  | .escape, c => some (if c = byte 'u' then .hex 3 else .string)
  | .hex 0, c => if (hexVal c).isSome then some .string else none
  | .hex (n + 1), c => if (hexVal c).isSome then some (.hex n) else none

/-- In the strings of the text each backslash has a character behind it, and each `\u` four
hexadecimal digits. -/
def complete : Lex → List UInt8 → Bool
  | .outside, [] => true
  | .string, [] => true
  | .escape, [] => false
  | .hex _, [] => false
  | s, c :: t =>
    match s.next c with
    | none => false
    | some s => complete s t

theorem exists_cons_of_peek {c : UInt8} (hc : c ≠ 0) (h : peek p = c) : ∃ q, p = c :: q := by
  cases p with
  | nil => exact absurd h.symm hc
  | cons b q => exact ⟨q, congrArg (· :: q) h⟩

theorem complete_next {s s' : Lex} {c : UInt8} (h : s.next c = some s') (t : List UInt8) :
    complete s (c :: t) = complete s' t := by
  rw [complete, h]

/-- The end of a pass over `p` outside of strings. -/
def Passes (p q : List UInt8) : Prop := ∃ w, p = w ++ q ∧ byte '"' ∉ w

theorem Passes.refl (p : List UInt8) : Passes p p := ⟨[], rfl, List.not_mem_nil⟩

theorem Passes.trans (hpq : Passes p q) (hqr : Passes q r) : Passes p r := by
  obtain ⟨w, rfl, hw⟩ := hpq
  obtain ⟨w', rfl, hw'⟩ := hqr
  refine ⟨w ++ w', (List.append_assoc w w' r).symm, ?_⟩
  rw [List.mem_append]
  exact fun h ↦ h.elim hw hw'

theorem Passes.suffix (h : Passes p q) : q <:+ p := by
  obtain ⟨w, rfl, -⟩ := h
  exact List.suffix_append w q

theorem Passes.complete (h : Passes p q) (hp : complete .outside p = true) :
    complete .outside q = true := by
  obtain ⟨w, rfl, hw⟩ := h
  induction w with
  | nil => exact hp
  | cons c w ih =>
      rw [List.mem_cons, not_or] at hw
      have hnext : Lex.outside.next c = some .outside := by
        rw [Lex.next, if_neg (Ne.symm hw.1)]
      rw [List.cons_append, complete_next hnext] at hp
      exact ih hw.2 hp

theorem passes_tail (h : peek p ≠ byte '"') : Passes p p.tail := by
  cases p with
  | nil => exact Passes.refl []
  | cons c p => exact ⟨[c], rfl, fun hmem ↦ h (List.mem_singleton.mp hmem).symm⟩

theorem passes_dropWhile {f : UInt8 → Bool} (hf : f (byte '"') = false) (p : List UInt8) :
    Passes p (p.dropWhile f) := by
  refine ⟨p.takeWhile f, List.takeWhile_append_dropWhile.symm, fun h ↦ ?_⟩
  have := List.mem_takeWhile_imp h
  rw [hf] at this
  cases this

theorem passes_skip (p : List UInt8) : Passes p (skip p) := passes_dropWhile (by decide) p

/-! ## Strings -/

theorem complete_cons {c : UInt8} (hquote : c ≠ byte '"') (hslash : c ≠ byte '\\')
    (t : List UInt8) : complete .string (c :: t) = complete .string t :=
  complete_next (by rw [Lex.next, if_neg hquote, if_neg hslash]) t

theorem complete_quote (t : List UInt8) :
    complete .string (byte '"' :: t) = complete .outside t := complete_next rfl t

theorem complete_slash (t : List UInt8) :
    complete .string (byte '\\' :: t) = complete .escape t := complete_next rfl t

theorem complete_escape {e : UInt8} (hu : e ≠ byte 'u') (t : List UInt8) :
    complete .escape (e :: t) = complete .string t :=
  complete_next (by rw [Lex.next, if_neg hu]) t

theorem complete_u (t : List UInt8) :
    complete .escape (byte 'u' :: t) = complete (.hex 3) t := complete_next rfl t

theorem complete_hex {n : ℕ} (h : complete (.hex n) t = true) :
    ∃ c w q, t = c :: q ∧ hexVal c = some w ∧
      complete (match n with | 0 => .string | n + 1 => .hex n) q = true := by
  cases t with
  | nil => cases h
  | cons c q =>
      cases hc : hexVal c with
      | none => cases n <;> simp [complete, Lex.next, hc] at h
      | some w =>
          refine ⟨c, w, q, rfl, hc, ?_⟩
          cases n <;> simpa [complete, Lex.next, hc] using h

theorem complete_hex4 (h : complete (.hex 3) t = true) :
    ∃ n hex q, t = hex ++ q ∧ Hex4 n hex ∧ complete .string q = true := by
  obtain ⟨a, w, t, rfl, ha, h⟩ := complete_hex h
  obtain ⟨b, x, t, rfl, hb, h⟩ := complete_hex h
  obtain ⟨c, y, t, rfl, hc, h⟩ := complete_hex h
  obtain ⟨d, z, t, rfl, hd, h⟩ := complete_hex h
  exact ⟨_, [a, b, c, d], t, rfl, .mk ha hb hc hd, h⟩

theorem hex4_lt {n : ℕ} {hex : List UInt8} (h : Hex4 n hex) : n < 0x10000 := by
  cases h with
  | mk ha hb hc hd =>
      have := hexVal_le ha
      have := hexVal_le hb
      have := hexVal_le hc
      have := hexVal_le hd
      omega

theorem putUtf8_length (uc : UInt32) : (putUtf8 uc).length ≤ 4 := by
  rw [putUtf8]
  split_ifs <;> simp

theorem putUtf8_length_three {uc : UInt32} (h : uc < 0x10000) : (putUtf8 uc).length ≤ 3 := by
  rw [putUtf8]
  split_ifs <;> simp

/-- A `\u` with its digits is moved over alone, or with the second half of a pair. -/
theorem transcode_cases {n : ℕ} {hex : List UInt8} (h : Hex4 n hex) (t : List UInt8) :
    (∃ bytes, transcode (hex ++ t) = (bytes, 4) ∧ bytes.length ≤ 3) ∨
      ∃ bytes q, transcode (hex ++ t) = (bytes, 10) ∧ bytes.length ≤ 4 ∧
        t = byte '\\' :: byte 'u' :: q := by
  have hdrop : ∀ k, (hex ++ t).drop (4 + k) = t.drop k := by
    intro k
    rw [← hex4_length h, List.drop_length_add_append]
  have hsmall : UInt32.ofNat n < 0x10000 := by
    have := hex4_lt h
    rw [UInt32.lt_iff_toNat_lt, UInt32.toNat_ofNat_of_lt' (lt_trans this (by decide))]
    exact this
  simp only [transcode, parseHex4_append h, hdrop 0, hdrop 1, hdrop 2, List.drop_zero]
  split
  · exact Or.inl ⟨[], rfl, Nat.zero_le _⟩
  · split
    · split
      · exact Or.inl ⟨[], rfl, Nat.zero_le _⟩
      · next hpair =>
        obtain ⟨q, rfl⟩ : ∃ q, t = byte '\\' :: byte 'u' :: q := by
          rw [not_or, not_not, not_not] at hpair
          obtain ⟨t, rfl⟩ := exists_cons_of_peek (by decide) hpair.1
          obtain ⟨q, rfl⟩ := exists_cons_of_peek (by decide) hpair.2
          exact ⟨q, rfl⟩
        split
        · exact Or.inr ⟨[], q, rfl, Nat.zero_le _, rfl⟩
        · exact Or.inr ⟨_, q, rfl, putUtf8_length _, rfl⟩
    · exact Or.inl ⟨_, rfl, putUtf8_length_three hsmall⟩

/-- Where the second pass stops: at the end, or at a quote. -/
def Stops (ptr : List UInt8) : Prop :=
  ptr = [] ∨ ∃ q, ptr = byte '"' :: q ∧ complete .outside q = true

/-- Both passes stay in the text, and the string fits into its block. -/
def Scans (t : List UInt8) : Prop :=
  ∃ len out ptr, scanString t = some len ∧ unescape 0 t = some (out, ptr) ∧ out.length ≤ len ∧
    ptr <:+ t ∧ Stops ptr

theorem scans_append {w : List UInt8} {m : ℕ} (bytes : List UInt8)
    (hscan : scanString (w ++ t) = (scanString t).map (· + m))
    (hunescape : unescape 0 (w ++ t) = (unescape 0 t).map fun r ↦ (bytes ++ r.1, r.2))
    (hle : bytes.length ≤ m) (h : Scans t) : Scans (w ++ t) := by
  obtain ⟨len, out, ptr, hlen, hout, hfit, hsuffix, hstop⟩ := h
  refine ⟨len + m, bytes ++ out, ptr, ?_, ?_, ?_, hsuffix.trans (List.suffix_append w t), hstop⟩
  · rw [hscan, hlen]
    rfl
  · rw [hunescape, hout]
    rfl
  · rw [List.length_append]
    omega

theorem scans_unicode {n : ℕ} {hex bytes : List UInt8} (hhex : Hex4 n hex)
    (htranscode : transcode (hex ++ t) = (bytes, 4)) (hle : bytes.length ≤ 3) (h : Scans t) :
    Scans (byte '\\' :: byte 'u' :: (hex ++ t)) := by
  refine scans_append (w := byte '\\' :: byte 'u' :: hex) (m := 5) bytes
    (scanString_hex hhex t) ?_ (by omega) h
  have hskip := unescape_skip hex t
  rw [hex4_length hhex] at hskip
  rw [List.cons_append, List.cons_append, unescape_slash_u, htranscode, hskip]

theorem scans_pair {n m : ℕ} {hi lo bytes : List UInt8} (hhi : Hex4 n hi) (hlo : Hex4 m lo)
    (htranscode : transcode (hi ++ byte '\\' :: byte 'u' :: (lo ++ t)) = (bytes, 10))
    (hle : bytes.length ≤ 4) (h : Scans t) :
    Scans (byte '\\' :: byte 'u' :: (hi ++ byte '\\' :: byte 'u' :: (lo ++ t))) := by
  have htext : byte '\\' :: byte 'u' :: (hi ++ byte '\\' :: byte 'u' :: (lo ++ t)) =
      (byte '\\' :: byte 'u' :: (hi ++ byte '\\' :: byte 'u' :: lo)) ++ t := by
    simp only [List.cons_append, List.append_assoc]
  have hskip := unescape_skip (hi ++ byte '\\' :: byte 'u' :: lo) t
  rw [List.length_append, List.length_cons, List.length_cons, hex4_length hhi, hex4_length hlo,
    List.append_assoc] at hskip
  rw [htext]
  refine scans_append (m := 10) bytes ?_ ?_ (by omega) h
  · rw [← htext, scanString_hex hhi, scanString_hex hlo, Option.map_map]
    rfl
  · rw [← htext, unescape_slash_u, htranscode]
    exact congrArg (Option.map _) hskip

theorem scans_of_complete (t : List UInt8) (h : complete .string t = true) : Scans t := by
  induction hlen : t.length using Nat.strong_induction_on generalizing t with
  | _ n ih =>
  subst hlen
  match t, h with
  | [], _ => exact ⟨0, [], [], rfl, rfl, le_rfl, List.suffix_rfl, Or.inl rfl⟩
  | c :: t, h =>
    by_cases hquote : c = byte '"'
    · subst hquote
      rw [complete_quote] at h
      exact ⟨0, [], _, scanString_quote t, unescape_quote t, le_rfl, List.suffix_rfl,
        Or.inr ⟨t, rfl, h⟩⟩
    by_cases hslash : c ≠ byte '\\'
    · rw [complete_cons hquote hslash] at h
      exact scans_append (w := [c]) [c] (scanString_cons hquote hslash t)
        (unescape_cons hquote hslash t) le_rfl (ih _ (Nat.lt_succ_self _) t h rfl)
    rw [not_not] at hslash
    subst hslash
    rw [complete_slash] at h
    match t, h with
    | e :: t, h =>
      by_cases hu : e ≠ byte 'u'
      · rw [complete_escape hu] at h
        exact scans_append (w := [byte '\\', e]) [unescapeChar e]
          (scanString_slash e t) (unescape_slash hu t) le_rfl
          (ih _ (by simp only [List.length_cons]; omega) t h rfl)
      rw [not_not] at hu
      subst hu
      rw [complete_u] at h
      obtain ⟨n, hex, q, rfl, hhex, hq⟩ := complete_hex4 h
      rcases transcode_cases hhex q with ⟨bytes, htranscode, hle⟩ | ⟨bytes, q, htranscode, hle, rfl⟩
      · exact scans_unicode hhex htranscode hle
          (ih _ (by simp only [List.length_cons, List.length_append]; omega) q hq rfl)
      · rw [complete_slash, complete_u] at hq
        obtain ⟨m, lo, q, rfl, hlo, hq⟩ := complete_hex4 hq
        exact scans_pair hhex hlo htranscode hle
          (ih _ (by simp only [List.length_cons, List.length_append]; omega) q hq rfl)

end OsaBase
