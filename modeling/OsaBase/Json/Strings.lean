import OsaBase.Json.Utf8

/-!
# Strings in `cJSON.c`

`parse_string` reads every JSON string, whatever its escapes, into a block that is large enough.
-/

open Json

namespace OsaBase

variable {D : Type} {s t hex : List UInt8} {n : ℕ}

/-! ## Escapes of code units -/

theorem hexVal_le {b : UInt8} {w : ℕ} (h : hexVal b = some w) : w ≤ 15 := by
  simp only [hexVal] at h
  split at h
  · next hb =>
    have := UInt8.le_iff_toNat_le.mp hb.2
    have : (byte '9').toNat = 57 := rfl
    cases h
    omega
  · split at h
    · next hb =>
      have := UInt8.le_iff_toNat_le.mp hb.2
      have : (byte 'F').toNat = 70 := rfl
      cases h
      omega
    · split at h
      · next hb =>
        have := UInt8.le_iff_toNat_le.mp hb.2
        have : (byte 'f').toNat = 102 := rfl
        cases h
        omega
      · cases h

theorem hexVal_ne {b : UInt8} {w : ℕ} (h : hexVal b = some w) :
    b ≠ byte '"' ∧ b ≠ byte '\\' := by
  constructor
  · rintro rfl
    cases h
  · rintro rfl
    cases h

theorem hex4_length (h : Hex4 n hex) : hex.length = 4 := by
  cases h
  rfl

/-- No digit ends the string or begins an escape. -/
theorem hex4_plain (h : Hex4 n hex) : ∀ b ∈ hex, b ≠ byte '"' ∧ b ≠ byte '\\' := by
  cases h with
  | mk ha hb hc hd =>
      intro b hmem
      simp only [List.mem_cons, List.not_mem_nil, or_false] at hmem
      rcases hmem with rfl | rfl | rfl | rfl
      · exact hexVal_ne ha
      · exact hexVal_ne hb
      · exact hexVal_ne hc
      · exact hexVal_ne hd

theorem parseHex4_append (h : Hex4 n hex) (rest : List UInt8) : parseHex4 (hex ++ rest) = n := by
  cases h with
  | mk ha hb hc hd =>
      simp only [parseHex4, peek, List.cons_append, List.nil_append, List.headD_cons,
        List.drop_succ_cons, List.drop_zero, ha, hb, hc, hd, Nat.shiftLeft_eq]

/-- The surrogates of a character come together to it. -/
theorem surrogates (u : Char) (hle : 0x10000 ≤ u.toNat) :
    0xD800 ≤ highSurrogate u ∧ highSurrogate u ≤ 0xDBFF ∧ 0xDC00 ≤ lowSurrogate u ∧
      lowSurrogate u ≤ 0xDFFF ∧
      0x10000 + ((highSurrogate u &&& 0x3FF) <<< 10 ||| lowSurrogate u &&& 0x3FF) = u.toNat := by
  have hmax := toNat_lt u
  have hmask : ∀ m, m &&& 0x3FF = m % 1024 := fun m ↦ Nat.and_two_pow_sub_one_eq_mod m 10
  have hlow : lowSurrogate u % 1024 < 2 ^ 10 := Nat.mod_lt _ (by decide)
  rw [hmask, hmask, ← Nat.shiftLeft_add_eq_or_of_lt hlow, Nat.shiftLeft_eq]
  simp only [highSurrogate, lowSurrogate]
  omega

/-! ## The two passes -/

theorem scanString_quote (ptr : List UInt8) : scanString (byte '"' :: ptr) = some 0 := by
  cases ptr <;> rfl

theorem scanString_cons {c : UInt8} (hquote : c ≠ byte '"') (hslash : c ≠ byte '\\')
    (ptr : List UInt8) : scanString (c :: ptr) = (scanString ptr).map (· + 1) := by
  cases ptr <;> simp only [scanString, hquote, hslash, if_false, ne_eq, not_false_eq_true, if_true]

theorem scanString_slash (e : UInt8) (ptr : List UInt8) :
    scanString (byte '\\' :: e :: ptr) = (scanString ptr).map (· + 1) := rfl

theorem scanString_plain (hplain : ∀ b ∈ t, b ≠ byte '"' ∧ b ≠ byte '\\') (rest : List UInt8) :
    scanString (t ++ rest) = (scanString rest).map (· + t.length) := by
  induction t with
  | nil => simp
  | cons b t ih =>
      obtain ⟨hquote, hslash⟩ := hplain b List.mem_cons_self
      rw [List.cons_append, scanString_cons hquote hslash,
        ih fun c hc ↦ hplain c (List.mem_cons_of_mem _ hc), Option.map_map, List.length_cons]
      rfl

theorem unescape_quote (ptr : List UInt8) :
    unescape 0 (byte '"' :: ptr) = some ([], byte '"' :: ptr) := by
  cases ptr <;> rfl

theorem unescape_cons {c : UInt8} (hquote : c ≠ byte '"') (hslash : c ≠ byte '\\')
    (ptr : List UInt8) :
    unescape 0 (c :: ptr) = (unescape 0 ptr).map fun r ↦ (c :: r.1, r.2) := by
  cases ptr <;> simp only [unescape, hquote, hslash, if_false, ne_eq, not_false_eq_true, if_true]

theorem unescape_slash {e : UInt8} (hu : e ≠ byte 'u') (ptr : List UInt8) :
    unescape 0 (byte '\\' :: e :: ptr) =
      (unescape 0 ptr).map fun r ↦ (unescapeChar e :: r.1, r.2) := by
  simp only [unescape, hu, if_false, ne_eq, not_true_eq_false, show byte '\\' ≠ byte '"' by decide]

theorem unescape_slash_u (ptr : List UInt8) :
    unescape 0 (byte '\\' :: byte 'u' :: ptr) =
      (unescape (transcode ptr).2 ptr).map fun r ↦ ((transcode ptr).1 ++ r.1, r.2) := by
  simp only [unescape, if_false, if_true, ne_eq, not_true_eq_false,
    show byte '\\' ≠ byte '"' by decide]

theorem unescape_skip (xs ptr : List UInt8) : unescape xs.length (xs ++ ptr) = unescape 0 ptr := by
  induction xs with
  | nil => rfl
  | cons x xs ih =>
      rw [List.length_cons, List.cons_append, unescape]
      exact ih

theorem scanString_hex (h : Hex4 n hex) (rest : List UInt8) :
    scanString (byte '\\' :: byte 'u' :: (hex ++ rest)) = (scanString rest).map (· + 5) := by
  rw [scanString_slash, scanString_plain (hex4_plain h), hex4_length h, Option.map_map]
  rfl

theorem length_utf8_le (u : Char) : (String.utf8EncodeChar u).length ≤ 4 := by
  rw [String.length_utf8EncodeChar]
  exact u.utf8Size_le_four

theorem length_utf8_le_three {u : Char} (hlt : u.toNat < 0x10000) :
    (String.utf8EncodeChar u).length ≤ 3 := by
  rw [String.utf8EncodeChar_eq_utf8EncodeCharFast, String.utf8EncodeCharFast]
  have hle : u.val ≤ 0xffff := UInt32.le_iff_toNat_le.mpr (Nat.le_of_lt_succ hlt)
  simp only [hle, if_true]
  split
  · simp
  · split <;> simp

/-- The block that the first pass measures has room for the string. -/
theorem scanString_chars (h : Chars s t) (rest : List UInt8) :
    ∃ len, scanString (t ++ byte '"' :: rest) = some len ∧ s.length ≤ len := by
  induction h with
  | nil => exact ⟨0, scanString_quote rest, le_rfl⟩
  | raw c hc hquote hslash h ih =>
      obtain ⟨len, hlen, hle⟩ := ih
      refine ⟨len + 1, ?_, Nat.succ_le_succ hle⟩
      rw [List.cons_append, scanString_cons hquote hslash, hlen]
      rfl
  | short he h ih =>
      obtain ⟨len, hlen, hle⟩ := ih
      refine ⟨len + 1, ?_, Nat.succ_le_succ hle⟩
      rw [List.cons_append, List.cons_append, scanString_slash, hlen]
      rfl
  | unicode u hpos hlt hhex h ih =>
      obtain ⟨len, hlen, hle⟩ := ih
      have := length_utf8_le_three hlt
      refine ⟨len + 5, ?_, by rw [List.length_append]; omega⟩
      rw [List.cons_append, List.cons_append, List.append_assoc, scanString_hex hhex, hlen]
      rfl
  | pair u hle hhi hlo h ih =>
      obtain ⟨len, hlen, hle'⟩ := ih
      have := length_utf8_le u
      refine ⟨len + 5 + 5, ?_, by rw [List.length_append]; omega⟩
      rw [List.cons_append, List.cons_append, List.append_assoc, List.cons_append,
        List.cons_append, List.append_assoc, scanString_hex hhi, scanString_hex hlo, hlen]
      rfl

theorem unescapeChar_eq {e c : UInt8} (he : shortEscape e = some c) :
    e ≠ byte 'u' ∧ unescapeChar e = c := by
  simp only [shortEscape] at he
  split at he
  · next h =>
    cases he
    rcases h with rfl | rfl | rfl <;> exact ⟨by decide, rfl⟩
  · refine ⟨?_, ?_⟩
    · rintro rfl
      cases he
    · simp only [unescapeChar]
      split_ifs at he ⊢ <;> simp_all

/-- The second pass stores the string and stops at its closing quote. -/
theorem unescape_chars (h : Chars s t) (rest : List UInt8) :
    unescape 0 (t ++ byte '"' :: rest) = some (s, byte '"' :: rest) := by
  induction h with
  | nil => exact unescape_quote rest
  | raw c hc hquote hslash h ih =>
      rw [List.cons_append, unescape_cons hquote hslash, ih]
      rfl
  | short he h ih =>
      obtain ⟨hu, hc⟩ := unescapeChar_eq he
      rw [List.cons_append, List.cons_append, unescape_slash hu, ih, hc]
      rfl
  | @unicode s t hex u hpos hlt hhex h ih =>
      have htranscode : transcode (hex ++ (t ++ byte '"' :: rest)) =
          (String.utf8EncodeChar u, hex.length) := by
        have hvalid : u.toNat.isValidChar := u.valid
        have hlow : ¬((0xDC00 ≤ u.toNat ∧ u.toNat ≤ 0xDFFF) ∨ u.toNat = 0) := by
          rcases hvalid with h | h <;> omega
        have hhigh : ¬(0xD800 ≤ u.toNat ∧ u.toNat ≤ 0xDBFF) := by
          rcases hvalid with h | h <;> omega
        simp only [transcode, parseHex4_append hhex, hex4_length hhex, hlow, hhigh, if_false,
          putUtf8_ofNat]
      rw [List.cons_append, List.cons_append, List.append_assoc, unescape_slash_u, htranscode,
        unescape_skip, ih]
      rfl
  | @pair s t hi lo u hle hhi hlo h ih =>
      obtain ⟨h₁, h₂, h₃, h₄, hval⟩ := surrogates u hle
      have htext : byte '\\' :: byte 'u' :: (hi ++ byte '\\' :: byte 'u' :: (lo ++ t)) ++
          byte '"' :: rest = byte '\\' :: byte 'u' ::
            ((hi ++ byte '\\' :: byte 'u' :: lo) ++ (t ++ byte '"' :: rest)) := by
        simp only [List.cons_append, List.append_assoc]
      have hlen : (hi ++ byte '\\' :: byte 'u' :: lo).length = 10 := by
        rw [List.length_append, List.length_cons, List.length_cons, hex4_length hhi,
          hex4_length hlo]
      have htranscode : transcode ((hi ++ byte '\\' :: byte 'u' :: lo) ++
          (t ++ byte '"' :: rest)) =
          (String.utf8EncodeChar u, (hi ++ byte '\\' :: byte 'u' :: lo).length) := by
        have hlow : ¬((0xDC00 ≤ highSurrogate u ∧ highSurrogate u ≤ 0xDFFF) ∨
            highSurrogate u = 0) := by omega
        have hpair : ¬(lowSurrogate u < 0xDC00 ∨ 0xDFFF < lowSurrogate u) := by omega
        have hdrop : ∀ k r, (hi ++ r).drop (4 + k) = r.drop k := by
          intro k r
          rw [← hex4_length hhi, List.drop_length_add_append]
        simp only [transcode, List.append_assoc, List.cons_append, parseHex4_append hhi, hlow,
          if_false, h₁, h₂, and_self, if_true, hdrop 0, hdrop 1, hdrop 2, List.drop_zero,
          List.drop_succ_cons, peek, List.headD_cons, ne_eq, not_true_eq_false, or_self,
          parseHex4_append hlo, hpair, hval, putUtf8_ofNat]
        rw [← hlen]
      rw [htext, unescape_slash_u, htranscode, unescape_skip, ih]
      rfl

theorem parseString_chars (item : CJson D) (h : Chars s t) (rest : List UInt8) :
    parseString item (byte '"' :: (t ++ byte '"' :: rest)) =
      .ok ({ item with type := .string, valuestring := some s }, rest) := by
  obtain ⟨len, hlen, hle⟩ := scanString_chars h rest
  simp only [parseString, peek, List.headD_cons, ne_eq, not_true_eq_false, if_false, List.tail_cons,
    hlen, unescape_chars h rest, not_lt.mpr hle, if_true]

end OsaBase
