import OsaBase.Json.Minify
import OsaBase.Json.RoundTrip

/-!
# What `cJSON_Minify` leaves

Comments and whitespace go, the value stays, and a minified text stays as it is.
-/

open Json

namespace OsaBase

/-! ## Comments -/

/-- Whitespace and comments. A block comment ends at the first `*/`; it does not begin with a slash,
because the code takes `/*/` for a whole comment. -/
inductive Blank : List UInt8 → Prop
  | nil : Blank []
  | space {b : UInt8} {w : List UInt8} (hb : IsWs b) (h : Blank w) : Blank (b :: w)
  | line {c w : List UInt8} (hc : byte '\n' ∉ c) (h : Blank w) :
      Blank (byte '/' :: byte '/' :: (c ++ byte '\n' :: w))
  | block {c w : List UInt8} (hslash : peek c ≠ byte '/') (hc : ¬[byte '*', byte '/'] <:+: c)
      (h : Blank w) :
      Blank (byte '/' :: byte '*' :: (c ++ byte '*' :: byte '/' :: w))

theorem strip_sublist {s : MinifyLoop} {t o : List UInt8} (h : strip s t = some o) :
    o.Sublist t := by
  induction t generalizing s o with
  | nil => cases s <;> cases h <;> exact .slnil
  | cons c t ih =>
      have hmap : ∀ {s o}, (strip s t).map (c :: ·) = some o → o.Sublist (c :: t) := by
        intro s o h
        obtain ⟨o', ho', rfl⟩ := Option.map_eq_some_iff.mp h
        exact (ih ho').cons_cons c
      cases s <;>
        simp only [strip] at h
      · split_ifs at h
        · exact (ih h).cons c
        · exact (ih h).cons c
        · exact (ih h).cons c
        · exact hmap h
        · exact hmap h
      · split_ifs at h <;> exact (ih h).cons c
      · split_ifs at h <;> exact (ih h).cons c
      · exact (ih h).cons c
      · split_ifs at h <;> exact hmap h
      · exact hmap h

/-- `t` is stripped to `t'`, whatever follows. -/
def Stripped (t t' : List UInt8) : Prop :=
  ∀ rest, strip .text (t ++ rest) = (strip .text rest).map (t' ++ ·)

variable {t t' u u' w rest : List UInt8} {c : UInt8}

theorem Stripped.nil : Stripped [] [] := fun rest ↦ by
  cases h : strip .text rest <;> simp [h]

theorem Stripped.append (h : Stripped t t') (h' : Stripped u u') :
    Stripped (t ++ u) (t' ++ u') := by
  intro rest
  rw [List.append_assoc, h, h', Option.map_map]
  congr 1
  funext o
  exact (List.append_assoc t' u' o).symm

/-- Whitespace, a slash and a quote do something; other bytes are copied. -/
def IsCopied (c : UInt8) : Prop := ¬IsWs c ∧ c ≠ byte '/' ∧ c ≠ byte '"'

instance (c : UInt8) : Decidable (IsCopied c) := inferInstanceAs (Decidable (_ ∧ _))

theorem stripped_byte (hc : IsCopied c) : Stripped [c] [c] := by
  obtain ⟨hws, hslash, hquote⟩ := hc
  intro rest
  simp only [List.cons_append, List.nil_append, strip, hws, hslash, hquote, false_and, if_false]

theorem stripped_copied (ht : t.all (IsCopied ·) = true) : Stripped t t := by
  induction t with
  | nil => exact .nil
  | cons c t ih =>
      rw [List.all_cons, Bool.and_eq_true] at ht
      exact (stripped_byte (of_decide_eq_true ht.1)).append (ih ht.2)

theorem stripped_space (hc : IsWs c) : Stripped [c] [] := by
  intro rest
  rw [List.singleton_append, strip, if_pos hc]
  cases strip .text rest <;> rfl

theorem strip_line (hc : byte '\n' ∉ t) (rest : List UInt8) :
    strip .line (t ++ byte '\n' :: rest) = strip .text rest := by
  induction t with
  | nil => rw [List.nil_append, strip, if_pos rfl]
  | cons c t ih =>
      rw [List.mem_cons, not_or] at hc
      rw [List.cons_append, strip, if_neg (Ne.symm hc.1), ih hc.2]

theorem strip_block (hc : ¬[byte '*', byte '/'] <:+: t) (rest : List UInt8) :
    strip .block (t ++ byte '*' :: byte '/' :: rest) = strip .text rest := by
  induction t with
  | nil => rw [List.nil_append, strip, if_pos ⟨rfl, rfl⟩, strip]
  | cons c t ih =>
      have hopen : ¬(c = byte '*' ∧ peek (t ++ byte '*' :: byte '/' :: rest) = byte '/') := by
        rintro ⟨rfl, hpeek⟩
        cases t with
        | nil => exact absurd hpeek (by decide : byte '*' ≠ byte '/')
        | cons d t =>
            have hd : d = byte '/' := hpeek
            exact hc ⟨[], t, by rw [hd]; rfl⟩
      rw [List.cons_append, strip, if_neg hopen]
      exact ih fun h ↦ hc (h.trans (List.suffix_cons c t).isInfix)

theorem stripped_blank (h : Blank w) : Stripped w [] := by
  induction h with
  | nil => exact .nil
  | space hb h ih => exact (stripped_space hb).append ih
  | @line c w hc h ih =>
      intro rest
      have hopen : strip .text (byte '/' :: byte '/' :: (c ++ byte '\n' :: w) ++ rest) =
          strip .line (byte '/' :: (c ++ byte '\n' :: (w ++ rest))) := by
        simp only [List.cons_append, List.append_assoc]
        rw [strip, if_neg (by decide), if_pos ⟨rfl, rfl⟩]
      rw [hopen, ← ih rest]
      exact strip_line (t := byte '/' :: c)
        (fun h ↦ (List.mem_cons.mp h).elim (by decide) hc) (w ++ rest)
  | @block c w hslash hc h ih =>
      intro rest
      have hopen : strip .text (byte '/' :: byte '*' :: (c ++ byte '*' :: byte '/' :: w) ++ rest) =
          strip .block (byte '*' :: (c ++ byte '*' :: byte '/' :: (w ++ rest))) := by
        simp only [List.cons_append, List.append_assoc]
        rw [strip, if_neg (by decide),
          if_neg fun h ↦ absurd h.2 (by decide : byte '*' ≠ byte '/'), if_pos ⟨rfl, rfl⟩]
      have hinfix : ¬[byte '*', byte '/'] <:+: byte '*' :: c := by
        rintro ⟨pre, post, heq⟩
        cases pre with
        | nil =>
            refine hslash ?_
            rw [← (List.cons.inj heq).2]
            rfl
        | cons b pre => exact hc ⟨pre, post, (List.cons.inj heq).2⟩
      rw [hopen, ← ih rest]
      exact strip_block (t := byte '*' :: c) hinfix (w ++ rest)

/-- The star that opens a comment also closes it. -/
theorem strip_slash_comment (rest : List UInt8) :
    strip .text (byte '/' :: byte '*' :: byte '/' :: rest) = strip .text rest := by
  rw [strip, if_neg (by decide), if_neg fun h ↦ absurd h.2 (by decide : byte '*' ≠ byte '/'),
    if_pos ⟨rfl, rfl⟩]
  exact strip_block (t := []) (by decide) rest

example : strip .text (['/', '*', '/', 'x', '*', '/', 'n', 'u', 'l', 'l'].map byte) =
    some (['x', '*', '/', 'n', 'u', 'l', 'l'].map byte) := by decide

/-! ## Tokens -/

theorem strip_string_plain (ht : ∀ c ∈ t, c ≠ byte '"' ∧ c ≠ byte '\\') (rest : List UInt8) :
    strip .string (t ++ rest) = (strip .string rest).map (t ++ ·) := by
  induction t with
  | nil => cases h : strip .string rest <;> simp [h]
  | cons c t ih =>
      obtain ⟨hquote, hslash⟩ := ht c List.mem_cons_self
      rw [List.cons_append, strip, if_neg hquote, if_neg hslash,
        ih fun b hb ↦ ht b (List.mem_cons_of_mem c hb), Option.map_map]
      rfl

theorem strip_string_escape (e : UInt8) (rest : List UInt8) :
    strip .string (byte '\\' :: e :: rest) =
      (strip .string rest).map ([byte '\\', e] ++ ·) := by
  rw [strip, if_neg (by decide), if_pos rfl, strip, Option.map_map]
  rfl

theorem strip_string_hex {n : ℕ} {hex : List UInt8} (h : Hex4 n hex) (rest : List UInt8) :
    strip .string (byte '\\' :: byte 'u' :: (hex ++ rest)) =
      (strip .string rest).map ((byte '\\' :: byte 'u' :: hex) ++ ·) := by
  rw [strip_string_escape, strip_string_plain (hex4_plain h), Option.map_map]
  rfl

theorem strip_chars {s : List UInt8} (h : Chars s t) (rest : List UInt8) :
    strip .string (t ++ byte '"' :: rest) = (strip .text rest).map ((t ++ [byte '"']) ++ ·) := by
  induction h with
  | nil => rw [List.nil_append, strip, if_pos rfl]; rfl
  | raw c hc hquote hslash h ih =>
      rw [List.cons_append, strip, if_neg hquote, if_neg hslash, ih, Option.map_map]
      rfl
  | short he h ih =>
      rw [List.cons_append, List.cons_append, strip_string_escape, ih, Option.map_map]
      rfl
  | unicode u hpos hlt hhex h ih =>
      rw [List.cons_append, List.cons_append, List.append_assoc, strip_string_hex hhex, ih,
        Option.map_map]
      congr 1
      funext o
      simp
  | pair u hle hhi hlo h ih =>
      simp only [List.cons_append, List.append_assoc]
      rw [strip_string_hex hhi, strip_string_hex hlo, ih, Option.map_map, Option.map_map]
      congr 1
      funext o
      simp

theorem stripped_string {s : List UInt8} (h : Chars s t) :
    Stripped (byte '"' :: (t ++ [byte '"'])) (byte '"' :: (t ++ [byte '"'])) := by
  intro rest
  have hne : byte '"' ≠ byte '/' := by decide
  rw [List.cons_append, List.append_assoc, strip, if_neg (by decide), if_neg fun h ↦ hne h.1,
    if_neg fun h ↦ hne h.1, if_pos rfl, List.singleton_append, strip_chars h, Option.map_map]
  rfl

theorem stripped_name {k : List UInt8} (hk : Chars k t) (h : Stripped u u') :
    Stripped (byte '"' :: (t ++ byte '"' :: u)) (byte '"' :: (t ++ byte '"' :: u')) := by
  have hname := (stripped_string hk).append h
  simpa using hname

theorem isCopied_digit {c : UInt8} (hc : IsDigit c) : IsCopied c := by
  refine ⟨?_, ?_, ?_⟩
  · rintro (rfl | rfl | rfl | rfl) <;>
      revert hc <;>
      decide
  · rintro rfl
    revert hc
    decide
  · rintro rfl
    revert hc
    decide

theorem stripped_numeral (x : Numeral) : Stripped x.text x.text := by
  refine stripped_copied (List.all_eq_true.mpr fun c hc ↦ decide_eq_true ?_)
  rcases numeral_bytes x c hc with hc | hc
  · exact isCopied_digit hc
  · simp only [List.mem_cons, List.not_mem_nil, or_false] at hc
    rcases hc with rfl | rfl | rfl | rfl | rfl <;> decide

/-! ## Texts -/

section Texts

variable {N : Type*} {val : Numeral → N} {p : Piece N}

/-- A text with comments is stripped to a text of the same value, in which nothing is left to
strip. -/
theorem exists_stripped (h : Denotes Blank val p t) :
    ∃ t', Denotes Ws val p t' ∧ Stripped t t' ∧ Stripped t' t' := by
  have hcopied : ∀ c, IsCopied c → Stripped [c] [c] := fun c hc ↦ stripped_byte hc
  have hopen := hcopied (byte '[') (by decide)
  have hclose := hcopied (byte ']') (by decide)
  have hbrace := hcopied (byte '{') (by decide)
  have hend := hcopied (byte '}') (by decide)
  have hcomma := hcopied (byte ',') (by decide)
  have hcolon := hcopied (byte ':') (by decide)
  induction h with
  | null => exact ⟨_, .null, stripped_copied rfl, stripped_copied rfl⟩
  | true => exact ⟨_, .true, stripped_copied rfl, stripped_copied rfl⟩
  | false => exact ⟨_, .false, stripped_copied rfl, stripped_copied rfl⟩
  | number x => exact ⟨_, .number x, stripped_numeral x, stripped_numeral x⟩
  | string h => exact ⟨_, .string h, stripped_string h, stripped_string h⟩
  | emptyArray hw =>
      exact ⟨_, .emptyArray ws_nil, hopen.append ((stripped_blank hw).append hclose),
        hopen.append (Stripped.nil.append hclose)⟩
  | array h ih =>
      obtain ⟨t', h', hs, ht⟩ := ih
      exact ⟨_, .array h', hopen.append (hs.append hclose), hopen.append (ht.append hclose)⟩
  | emptyObject hw =>
      exact ⟨_, .emptyObject ws_nil, hbrace.append ((stripped_blank hw).append hend),
        hbrace.append (Stripped.nil.append hend)⟩
  | object h ih =>
      obtain ⟨t', h', hs, ht⟩ := ih
      exact ⟨_, .object h', hbrace.append (hs.append hend), hbrace.append (ht.append hend)⟩
  | lastItem hw h hw' ih =>
      obtain ⟨t', h', hs, ht⟩ := ih
      exact ⟨_, .lastItem ws_nil h' ws_nil,
        (stripped_blank hw).append (hs.append (stripped_blank hw')),
        Stripped.nil.append (ht.append .nil)⟩
  | item hw h hw' hr ih ihr =>
      obtain ⟨t', h', hs, ht⟩ := ih
      obtain ⟨r', hr', hsr, htr⟩ := ihr
      exact ⟨_, .item ws_nil h' ws_nil hr',
        (stripped_blank hw).append (hs.append ((stripped_blank hw').append (hcomma.append hsr))),
        Stripped.nil.append (ht.append (Stripped.nil.append (hcomma.append htr)))⟩
  | lastMember hw hk hw₁ hw₂ h hw' ih =>
      obtain ⟨t', h', hs, ht⟩ := ih
      exact ⟨_, .lastMember ws_nil hk ws_nil ws_nil h' ws_nil,
        (stripped_blank hw).append (stripped_name hk ((stripped_blank hw₁).append
          (hcolon.append ((stripped_blank hw₂).append (hs.append (stripped_blank hw')))))),
        Stripped.nil.append (stripped_name hk (Stripped.nil.append
          (hcolon.append (Stripped.nil.append (ht.append .nil)))))⟩
  | member hw hk hw₁ hw₂ h hw' hr ih ihr =>
      obtain ⟨t', h', hs, ht⟩ := ih
      obtain ⟨r', hr', hsr, htr⟩ := ihr
      exact ⟨_, .member ws_nil hk ws_nil ws_nil h' ws_nil hr',
        (stripped_blank hw).append (stripped_name hk ((stripped_blank hw₁).append
          (hcolon.append ((stripped_blank hw₂).append
            (hs.append ((stripped_blank hw').append (hcomma.append hsr))))))),
        Stripped.nil.append (stripped_name hk (Stripped.nil.append
          (hcolon.append (Stripped.nil.append
            (ht.append (Stripped.nil.append (hcomma.append htr)))))))⟩

end Texts

theorem cJsonMinify_stripped (ht : 0 ∉ t) (h : Stripped t t') :
    ∃ tail, cJsonMinify (t ++ [0]) = some (.done (t' ++ 0 :: tail)) ∧
      (t' ++ 0 :: tail).length = (t ++ [0]).length := by
  have hmin := cJsonMinify_leaves ht
  have hstrip : strip .text t = some t' := by
    have hnil := h []
    rw [List.append_nil] at hnil
    rw [hnil, strip, Option.map_some, List.append_nil]
  rw [hstrip] at hmin
  exact hmin

theorem chars_nul {s : List UInt8} (h : Chars s t) : 0 ∉ t := by
  have hhex : ∀ {n : ℕ} {hex : List UInt8}, Hex4 n hex → 0 ∉ hex := by
    rintro _ _ ⟨ha, hb, hc, hd⟩ hmem
    simp only [List.mem_cons, List.not_mem_nil, or_false] at hmem
    rcases hmem with rfl | rfl | rfl | rfl
    · cases ha
    · cases hb
    · cases hc
    · cases hd
  induction h with
  | nil => exact List.not_mem_nil
  | raw c hc hquote hslash h ih =>
      rw [List.mem_cons, not_or]
      refine ⟨?_, ih⟩
      rintro rfl
      exact absurd hc (by decide)
  | short he h ih =>
      rw [List.mem_cons, List.mem_cons, not_or, not_or]
      refine ⟨by decide, ?_, ih⟩
      rintro rfl
      cases he
  | unicode u hpos hlt hh h ih =>
      simp only [List.mem_cons, List.mem_append, not_or]
      exact ⟨by decide, by decide, hhex hh, ih⟩
  | pair u hle hhi hlo h ih =>
      simp only [List.mem_cons, List.mem_append, not_or]
      exact ⟨by decide, by decide, hhex hhi, by decide, by decide, hhex hlo, ih⟩

theorem text_nul {N : Type*} {val : Numeral → N} {p : Piece N} (h : Denotes Ws val p t) :
    0 ∉ t := by
  have hws : ∀ {w}, Ws w → 0 ∉ w := by
    intro w hw hmem
    rcases hw 0 hmem with h | h | h | h <;> exact absurd h (by decide)
  have hnumeral : ∀ x : Numeral, 0 ∉ x.text := fun x hmem ↦
    (numeral_bytes x 0 hmem).elim (fun h ↦ absurd h (by decide)) fun h ↦ absurd h (by decide)
  have hquote : (0 : UInt8) ≠ byte '"' := by decide
  have hopen : (0 : UInt8) ≠ byte '[' := by decide
  have hclose : (0 : UInt8) ≠ byte ']' := by decide
  have hbrace : (0 : UInt8) ≠ byte '{' := by decide
  have hend : (0 : UInt8) ≠ byte '}' := by decide
  have hcomma : (0 : UInt8) ≠ byte ',' := by decide
  have hcolon : (0 : UInt8) ≠ byte ':' := by decide
  induction h with
  | null | true | false => decide
  | number x => exact hnumeral x
  | string h => simp [hquote, chars_nul h]
  | emptyArray hw => simp [hopen, hclose, hws hw]
  | array h ih => simp [hopen, hclose, ih]
  | emptyObject hw => simp [hbrace, hend, hws hw]
  | object h ih => simp [hbrace, hend, ih]
  | lastItem hw h hw' ih => simp [hws hw, ih, hws hw']
  | item hw h hw' hr ih ihr => simp [hcomma, hws hw, ih, hws hw', ihr]
  | lastMember hw hk hw₁ hw₂ h hw' ih =>
      simp [hquote, hcolon, hws hw, chars_nul hk, hws hw₁, hws hw₂, ih, hws hw']
  | member hw hk hw₁ hw₂ h hw' hr ih ihr =>
      simp [hquote, hcolon, hcomma, hws hw, chars_nul hk, hws hw₁, hws hw₂, ih, hws hw', ihr]

variable {D : Type} [CDouble D]

/-- A text with comments is minified where it stands to a text that `cJSON_Parse` reads as the same
value; minified again it stays as it is. -/
theorem cJsonMinify_text {v : Json D} {w' : List UInt8}
    (h : Denotes Blank numeralOf (.value v) t) (hw : Blank w) (hw' : Blank w')
    (hnul : 0 ∉ w ++ (t ++ w')) :
    ∃ t' tail, cJsonMinify (w ++ (t ++ w') ++ [0]) = some (.done (t' ++ 0 :: tail)) ∧
      Text numeralOf v t' ∧ cJsonParseWithOpts t' true = .ok (itemOf none v, []) ∧
      ∃ tail', cJsonMinify (t' ++ [0]) = some (.done (t' ++ 0 :: tail')) := by
  obtain ⟨t', h', hs, ht⟩ := exists_stripped h
  have hall := (stripped_blank hw).append (hs.append (stripped_blank hw'))
  rw [List.nil_append, List.append_nil] at hall
  obtain ⟨tail, hmin, -⟩ := cJsonMinify_stripped hnul hall
  have hstrip := hall []
  rw [List.append_nil, strip, Option.map_some, List.append_nil] at hstrip
  have hnul' : 0 ∉ t' := fun hmem ↦ hnul ((strip_sublist hstrip).subset hmem)
  obtain ⟨tail', hmin', -⟩ := cJsonMinify_stripped hnul' ht
  exact ⟨t', tail, hmin, h', cJsonParse_whole h', tail', hmin'⟩

/-- A member with an array, a comment of each kind and a comment in front. -/
theorem cJsonMinify_text_member :
    ∃ t' tail,
      cJsonMinify (['/', '*', 'a', '*', '/'].map byte ++
          (['{', '"', 'k', '"', ':', '[', '1', ',', ' ', '"', 'x', '"', ']', '/', '/', 'b', '\n',
            '}'].map byte ++ [byte '/', byte '*', byte '*', byte '/']) ++ [0]) =
        some (.done (t' ++ 0 :: tail)) ∧
      Text numeralOf (.object [([byte 'k'], .array [.number (1 : ℚ), .string [byte 'x']])]) t' ∧
      cJsonParseWithOpts t' true =
        .ok (itemOf none (.object [([byte 'k'], .array [.number (1 : ℚ), .string [byte 'x']])]),
          []) ∧
      ∃ tail', cJsonMinify (t' ++ [0]) = some (.done (t' ++ 0 :: tail')) := by
  have hline : Blank [byte '/', byte '/', byte 'b', byte '\n'] :=
    .line (c := [byte 'b']) (by decide) .nil
  have hblock : Blank [byte '/', byte '*', byte 'a', byte '*', byte '/'] :=
    .block (c := [byte 'a']) (by decide) (by decide) .nil
  have hempty : Blank [byte '/', byte '*', byte '*', byte '/'] :=
    .block (c := []) (by decide) (by decide) .nil
  have hone : numeralOf (intNumeral 1) = (1 : ℚ) := numeralOf_int 1
  have hnumber : Denotes Blank numeralOf (.value (.number (1 : ℚ))) [byte '1'] :=
    hone ▸ .number (intNumeral 1)
  have hstring : Denotes Blank numeralOf (.value (.string [byte 'x'] : Json ℚ))
      [byte '"', byte 'x', byte '"'] :=
    .string (t := [byte 'x']) (.raw (byte 'x') (by decide) (by decide) (by decide) .nil)
  have hitems : Denotes Blank numeralOf (.items [.number (1 : ℚ), .string [byte 'x']])
      [byte '1', byte ',', byte ' ', byte '"', byte 'x', byte '"'] :=
    .item .nil hnumber .nil (.lastItem (.space (Or.inl rfl) .nil) hstring .nil)
  have hname : Chars [byte 'k'] [byte 'k'] :=
    .raw (byte 'k') (by decide) (by decide) (by decide) .nil
  have hmember := Denotes.object (.lastMember .nil hname .nil .nil (.array hitems) hline)
  have h := cJsonMinify_text hmember hblock hempty (by decide)
  exact h

end OsaBase
