import OsaBase.Json.Exact
import OsaBase.Json.Numbers
import OsaBase.Json.Strings

/-!
# The texts `cJSON.c` prints

Every text fits into its block and is a text of the item's value, formatted or not.
-/

open Json

namespace OsaBase

/-! ## Integers -/

theorem decimalDigits_lt (n : ℕ) : ∀ d ∈ decimalDigits n, d < 10 := by
  intro d hd
  rw [decimalDigits] at hd
  split at hd
  · rw [List.mem_singleton.mp hd]
    decide
  · exact Nat.digits_lt_base (by decide) (List.mem_reverse.mp hd)

/-- The numeral of an integer. -/
def intNumeral (i : ℤ) : Numeral where
  neg := i < 0
  int := decimalDigits i.natAbs
  frac := []
  exp := none
  int_ne := by
    rw [decimalDigits]
    split
    · exact List.cons_ne_nil _ _
    · next h =>
      exact fun hnil ↦ Nat.digits_ne_nil_iff_ne_zero.mpr h (List.reverse_eq_nil_iff.mp hnil)
  int_lt := decimalDigits_lt _
  int_lead := by
    intro d ds hint hd
    rw [decimalDigits] at hint
    split at hint
    · exact (List.cons.inj hint).2.symm
    · next h =>
      have hlast := Nat.getLast_digit_ne_zero 10 h
      have hhead : (Nat.digits 10 i.natAbs).getLast? = some d := by
        rw [← List.head?_reverse, hint, List.head?_cons]
      rw [List.getLast?_eq_getLast_of_ne_nil (Nat.digits_ne_nil_iff_ne_zero.mpr h),
        Option.some_inj] at hhead
      exact absurd (hhead.trans hd) hlast
  frac_lt := fun _ h ↦ nomatch h

theorem text_intNumeral (i : ℤ) : (intNumeral i).text = sprintfD i := by
  simp [Numeral.text, intNumeral, sprintfD, fracText, expText]

/-! ## Strings -/

theorem hexVal_hexDigit {n : ℕ} (hn : n < 16) : hexVal (hexDigit n) = some n := by
  revert n
  decide

theorem hex4_sprintf (c : UInt8) : Hex4 c.toNat (sprintf04x c) := by
  have hhigh : c.toNat / 16 < 16 := Nat.div_lt_of_lt_mul c.toNat_lt
  have hlow : c.toNat % 16 < 16 := Nat.mod_lt _ (by decide)
  have hhex : Hex4 (((0 * 16 + 0) * 16 + c.toNat / 16) * 16 + c.toNat % 16) (sprintf04x c) :=
    .mk rfl rfl (hexVal_hexDigit hhigh) (hexVal_hexDigit hlow)
  have hval : ((0 * 16 + 0) * 16 + c.toNat / 16) * 16 + c.toNat % 16 = c.toNat := by omega
  exact hval ▸ hhex

theorem exists_ascii {c : UInt8} (hc : c < 0x80) :
    ∃ u : Char, u.toNat = c.toNat ∧ String.utf8EncodeChar u = [c] := by
  have hlt : c.toNat < 128 := UInt8.lt_iff_toNat_lt.mp hc
  have htoNat : c.toUInt32.toNat = c.toNat := UInt8.toNat_toUInt32 c
  refine ⟨⟨c.toUInt32, Or.inl ?_⟩, htoNat, ?_⟩
  · rw [htoNat]
    omega
  · have hle : c.toUInt32 ≤ 0x7f := by
      rw [UInt32.le_iff_toNat_le, htoNat]
      exact Nat.le_of_lt_succ hlt
    rw [String.utf8EncodeChar_eq_utf8EncodeCharFast, String.utf8EncodeCharFast]
    simp only [hle, if_true]
    rw [UInt8.toUInt8_toUInt32]

/-- How one character is written between quotes, and with how many. -/
inductive Escape (c : UInt8) : List UInt8 → ℕ → Prop
  | raw (hc : 0x20 ≤ c) (hquote : c ≠ byte '"') (hslash : c ≠ byte '\\') : Escape c [c] 1
  | short {e : UInt8} (he : shortEscape e = some c) : Escape c [byte '\\', e] 2
  | unicode (hc : c < 0x20) : Escape c (byte '\\' :: byte 'u' :: sprintf04x c) 6

theorem escape_char (c : UInt8) : Escape c (escapeChar c) (escapedLength c) := by
  rw [escapeChar]
  split
  · next h =>
    obtain ⟨hlt, hquote, hslash⟩ := h
    have hle : 32 ≤ c := UInt8.le_iff_toNat_le.mpr (UInt8.lt_iff_toNat_lt.mp hlt)
    have hne : ∀ b : UInt8, b < 32 → c ≠ b := fun b hb h ↦ UInt8.not_le.mpr hb (h ▸ hle)
    have hmem : c ∉ [byte '"', byte '\\', 8, 12, 10, 13, 9] := by
      simp only [List.mem_cons, List.not_mem_nil, hquote, hslash, hne 8 (by decide),
        hne 12 (by decide), hne 10 (by decide), hne 13 (by decide), hne 9 (by decide), or_self,
        not_false_eq_true]
    rw [escapedLength, if_neg hmem, if_neg (UInt8.not_lt.mpr hle)]
    exact .raw hle hquote hslash
  · next h =>
    by_cases hmem : c ∈ [byte '"', byte '\\', 8, 12, 10, 13, 9]
    · rw [escapedLength, if_pos hmem]
      simp only [List.mem_cons, List.not_mem_nil, or_false] at hmem
      rcases hmem with rfl | rfl | rfl | rfl | rfl | rfl | rfl <;>
        exact .short rfl
    · have hlt : c < 32 := by
        simp only [List.mem_cons, List.not_mem_nil, or_false, not_or] at hmem
        rw [not_and_or, not_and_or, not_not, not_not] at h
        rcases h with h | h | h
        · exact UInt8.lt_iff_toNat_lt.mpr (Nat.lt_succ_of_le (UInt8.not_lt.mp h))
        · exact absurd h hmem.1
        · exact absurd h hmem.2.1
      rw [escapedLength, if_neg hmem, if_pos hlt]
      simp only [List.mem_cons, List.not_mem_nil, or_false, not_or] at hmem
      simp only [hmem, if_false]
      exact .unicode hlt

theorem Escape.length {c : UInt8} {t : List UInt8} {n : ℕ} (h : Escape c t n) : t.length = n := by
  cases h <;> rfl

theorem Escape.chars {c : UInt8} {s t e : List UInt8} {n : ℕ} (h : Escape c e n) (hc : c ≠ 0)
    (hs : Chars s t) : Chars (c :: s) (e ++ t) := by
  cases h with
  | raw hle hquote hslash => exact .raw c hle hquote hslash hs
  | short he => exact .short he hs
  | unicode hlt =>
      obtain ⟨u, hu, hutf8⟩ := exists_ascii (UInt8.lt_trans hlt (by decide : (32 : UInt8) < 0x80))
      have hpos : 0 < c.toNat := Nat.pos_of_ne_zero fun h ↦ hc (UInt8.toNat_inj.mp h)
      have hchars := Chars.unicode u (hu ▸ hpos) (by rw [hu]; exact lt_trans c.toNat_lt (by decide))
        (hu ▸ hex4_sprintf c) hs
      rw [hutf8] at hchars
      exact hchars

theorem flatMap_chars {s : List UInt8} (hs : 0 ∉ s) : Chars s (s.flatMap escapeChar) := by
  induction s with
  | nil => exact .nil
  | cons c s ih =>
      rw [List.mem_cons, not_or] at hs
      exact (escape_char c).chars (Ne.symm hs.1) (ih hs.2)

theorem flatMap_length (s : List UInt8) :
    (s.flatMap escapeChar).length = (s.map escapedLength).sum := by
  induction s with
  | nil => rfl
  | cons c s ih =>
      rw [List.flatMap_cons, List.length_append, ih, (escape_char c).length, List.map_cons,
        List.sum_cons]

theorem unflagged_chars {s : List UInt8} (hs : 0 ∉ s) (hflag : s.any isFlagged = false) :
    Chars s s := by
  induction s with
  | nil => exact .nil
  | cons c s ih =>
      rw [List.mem_cons, not_or] at hs
      rw [List.any_cons, Bool.or_eq_false_iff] at hflag
      have hc := hflag.1
      simp only [isFlagged, decide_eq_false_iff_not, not_or, not_and] at hc
      have hpos : 0 < c := UInt8.pos_iff_ne_zero.mpr (Ne.symm hs.1)
      exact .raw c (UInt8.not_lt.mp (hc.1 hpos)) hc.2.1 hc.2.2 (ih hs.2 hflag.2)

/-- The block of a string has the size of its text. -/
theorem stringText_length (s : List UInt8) :
    (stringText s).2.length + 1 = (stringText s).1 := by
  rw [stringText]
  split
  · simp only [List.length_cons, List.length_append, List.length_nil, flatMap_length]
  · simp only [List.length_cons, List.length_append, List.length_nil]

theorem stringText_chars {s : List UInt8} (hs : 0 ∉ s) :
    ∃ t, (stringText s).2 = byte '"' :: (t ++ [byte '"']) ∧ Chars s t := by
  rw [stringText]
  split
  · exact ⟨_, rfl, flatMap_chars hs⟩
  · next hflag => exact ⟨s, rfl, unflagged_chars hs (Bool.eq_false_iff.mpr hflag)⟩

theorem printStringPtr_eq (s : List UInt8) :
    printStringPtr (some s) = .ok (stringText s).2 := by
  rw [printStringPtr, fillBlock, if_neg]
  exact not_lt.mpr (stringText_length s).le

/-! ## Composed texts -/

theorem composeArray_cons (fmt : Bool) (e e' : List UInt8) (entries : List (List UInt8)) :
    composeArray fmt (e :: e' :: entries) =
      e ++ ((byte ',' :: if fmt then [byte ' '] else []) ++ composeArray fmt (e' :: entries)) := by
  rw [composeArray]
  · rfl
  · exact List.cons_ne_nil _ _

theorem composeArray_length (fmt : Bool) (entries : List (List UInt8)) :
    (composeArray fmt entries).length ≤
      (entries.map fun ret ↦ ret.length + 2 + if fmt then 1 else 0).sum := by
  induction entries with
  | nil => exact Nat.zero_le _
  | cons e entries ih =>
      cases entries with
      | nil =>
          simp only [composeArray, List.map_cons, List.map_nil, List.sum_cons, List.sum_nil]
          omega
      | cons e' entries =>
          have hspace : (byte ',' :: if fmt then [byte ' '] else []).length =
              1 + if fmt then 1 else 0 := by
            cases fmt <;> rfl
          rw [composeArray_cons, List.map_cons, List.sum_cons, List.length_append,
            List.length_append, hspace]
          omega

theorem composeObject_length (fmt : Bool) (depth : ℕ) (entries : List (List UInt8 × List UInt8)) :
    (composeObject fmt depth entries).length ≤
      (entries.map fun e ↦ e.2.length + e.1.length + 2 + if fmt then 2 + depth else 0).sum := by
  induction entries with
  | nil => exact Nat.zero_le _
  | cons e entries ih =>
      obtain ⟨name, entry⟩ := e
      have hcomma : (if entries.isEmpty then [] else [byte ',']).length ≤ 1 := by
        split
        · exact Nat.zero_le _
        · exact le_rfl
      rw [composeObject, List.map_cons, List.sum_cons]
      cases fmt <;>
        simp only [List.length_append, List.length_cons, List.length_nil, tabs,
          List.length_replicate, if_true, Bool.false_eq_true, if_false] at ih ⊢ <;>
        omega

section Compose

variable {N : Type*} {val : Numeral → N} (fmt : Bool) (depth : ℕ)

theorem ws_fmt {b : UInt8} (hb : IsWs b) : Ws (if fmt then [b] else []) := by
  intro c hc
  split at hc
  · exact List.mem_singleton.mp hc ▸ hb
  · cases hc

theorem ws_tabs : Ws (if fmt then tabs depth else []) := by
  intro c hc
  split at hc
  · exact Or.inr (Or.inl (List.eq_of_mem_replicate hc))
  · cases hc

theorem composeArray_items {vs : List (Json N)} {entries : List (List UInt8)}
    (h : List.Forall₂ (Text val) vs entries) (hne : vs ≠ []) {w : List UInt8} (hw : Ws w) :
    Denotes Ws val (.items vs) (w ++ composeArray fmt entries) := by
  induction h generalizing w with
  | nil => exact absurd rfl hne
  | @cons v e vs entries h hs ih =>
      cases hs with
      | nil =>
          have hlast := Denotes.lastItem hw h ws_nil
          rwa [List.append_nil] at hlast
      | cons h' hs =>
          have hnext := ih (List.cons_ne_nil _ _) 
            (ws_fmt fmt (Or.inl rfl : IsWs (byte ' ')))
          exact .item hw h ws_nil hnext

/-- A name and a value, and their texts. -/
def MemberText (val : Numeral → N) (m : List UInt8 × Json N) (e : List UInt8 × List UInt8) : Prop :=
  (∃ t, e.1 = byte '"' :: (t ++ [byte '"']) ∧ Chars m.1 t) ∧ Text val m.2 e.2

theorem composeObject_members {ms : List (List UInt8 × Json N)}
    {entries : List (List UInt8 × List UInt8)} (h : List.Forall₂ (MemberText val) ms entries)
    (hne : ms ≠ []) {w w' : List UInt8} (hw : Ws w) (hw' : Ws w') :
    Denotes Ws val (.members ms) (w ++ (composeObject fmt depth entries ++ w')) := by
  induction h generalizing w with
  | nil => exact absurd rfl hne
  | @cons m e ms entries h hs ih =>
      obtain ⟨k, v⟩ := m
      obtain ⟨name, entry⟩ := e
      obtain ⟨⟨t, rfl, hk⟩, h⟩ := h
      have hindent := ws_append hw (ws_tabs fmt depth)
      have htab := ws_fmt fmt (Or.inr (Or.inl rfl) : IsWs (byte '\t'))
      have hline := ws_fmt fmt (Or.inr (Or.inr (Or.inl rfl)) : IsWs (byte '\n'))
      cases hs with
      | nil =>
          have hlast := Denotes.lastMember hindent hk ws_nil htab h (ws_append hline hw')
          simpa [composeObject] using hlast
      | cons h' hs =>
          have hnext := ih (List.cons_ne_nil _ _) hline
          have hmember := Denotes.member hindent hk ws_nil htab h ws_nil hnext
          rw [composeObject]
          simpa using hmember

end Compose

/-! ## Values -/

variable {D : Type} [CDouble D]

mutual

/-- The value that an item stands for, if no string is missing in it. -/
def valueOf : CJson D → Option (Json D)
  | ⟨type, valuestring, _, valuedouble, _, child⟩ =>
    match type with
    | .null => some .null
    | .false => some (.bool false)
    | .true => some (.bool true)
    | .number => some (.number valuedouble)
    | .string => valuestring.map .string
    | .array => (valuesOf child).map .array
    | .object => (namedValuesOf child).map .object

def valuesOf : List (CJson D) → Option (List (Json D))
  | [] => some []
  | c :: child => do
    let v ← valueOf c
    let vs ← valuesOf child
    some (v :: vs)

def namedValuesOf : List (CJson D) → Option (List (List UInt8 × Json D))
  | [] => some []
  | c :: child => do
    let k ← c.string
    let v ← valueOf c
    let ms ← namedValuesOf child
    some ((k, v) :: ms)

end

mutual

/-- The strings hold no NUL, and the text of each number is a numeral that is read as it. -/
def Rereads : CJson D → Prop
  | item@⟨type, valuestring, _, valuedouble, _, child⟩ =>
    match type with
    | .null | .false | .true => True
    | .number => ∃ x : Numeral, (numberText item).2 = x.text ∧ numeralOf x = valuedouble
    | .string => ∀ s ∈ valuestring, 0 ∉ s
    | .array => AllReread child
    | .object => (∀ c ∈ child, ∀ k ∈ c.string, 0 ∉ k) ∧ AllReread child

def AllReread : List (CJson D) → Prop
  | [] => True
  | c :: child => Rereads c ∧ AllReread child

end

theorem printNumber_eq [SprintfFits D] (item : CJson D) :
    printNumber item = .ok (numberText item).2 := by
  rw [printNumber, fillBlock, if_neg]
  rw [not_lt, Nat.succ_le_iff, numberText]
  split
  · exact Nat.one_lt_two
  · split
    · exact sprintfD_int _
    · split
      · next h => exact SprintfFits.sprintf0f _ h.2
      · split
        · exact SprintfFits.sprintfE _
        · next h =>
          rw [not_or, Bool.not_eq_true, Bool.not_eq_true] at h
          exact SprintfFits.sprintfF _ h.1 h.2

/-- What printing an item comes to: NULL is dereferenced, or there is a text of the value. -/
def Prints (item : CJson D) (v : Option (Json D)) (r : Except PrintError (List UInt8)) : Prop :=
  match v with
  | none => r = .error .null
  | some v => ∃ t, r = .ok t ∧ (Rereads item → Text numeralOf v t)

def PrintsEntries (child : List (CJson D)) (vs : Option (List (Json D)))
    (r : Except PrintError (List (List UInt8))) : Prop :=
  match vs with
  | none => r = .error .null
  | some vs => ∃ ts, r = .ok ts ∧ vs.length = child.length ∧
      (AllReread child → List.Forall₂ (Text numeralOf) vs ts)

def PrintsMembers (child : List (CJson D)) (ms : Option (List (List UInt8 × Json D)))
    (r : Except PrintError (List (List UInt8 × List UInt8))) : Prop :=
  match ms with
  | none => r = .error .null
  | some ms => ∃ ts, r = .ok ts ∧ ms.length = child.length ∧
      ((∀ c ∈ child, ∀ k ∈ c.string, 0 ∉ k) → AllReread child →
        List.Forall₂ (MemberText numeralOf) ms ts)

theorem prints_entries {c : CJson D} {child : List (CJson D)} {depth : ℕ} {fmt : Bool}
    (hc : Prints c (valueOf c) (printValue c depth fmt))
    (h : PrintsEntries child (valuesOf child) (printEntries child depth fmt)) :
    PrintsEntries (c :: child) (valuesOf (c :: child)) (printEntries (c :: child) depth fmt) := by
  rw [valuesOf, printEntries]
  cases hv : valueOf c with
  | none =>
      rw [hv] at hc
      rw [show printValue c depth fmt = .error .null from hc]
      rfl
  | some v =>
      rw [hv] at hc
      obtain ⟨t, ht, htext⟩ := hc
      rw [ht]
      cases hvs : valuesOf child with
      | none =>
          rw [hvs] at h
          rw [show printEntries child depth fmt = .error .null from h]
          rfl
      | some vs =>
          rw [hvs] at h
          obtain ⟨ts, hts, hlen, htexts⟩ := h
          rw [hts]
          exact ⟨t :: ts, rfl, congrArg Nat.succ hlen,
            fun hreread ↦ .cons (htext hreread.1) (htexts hreread.2)⟩

theorem prints_members {c : CJson D} {child : List (CJson D)} {depth : ℕ} {fmt : Bool}
    (hc : Prints c (valueOf c) (printValue c depth fmt))
    (h : PrintsMembers child (namedValuesOf child) (printMembers child depth fmt)) :
    PrintsMembers (c :: child) (namedValuesOf (c :: child))
      (printMembers (c :: child) depth fmt) := by
  rw [namedValuesOf, printMembers]
  cases hk : c.string with
  | none => rfl
  | some k =>
      rw [printStringPtr_eq]
      cases hv : valueOf c with
      | none =>
          rw [hv] at hc
          rw [show printValue c depth fmt = .error .null from hc]
          rfl
      | some v =>
          rw [hv] at hc
          obtain ⟨t, ht, htext⟩ := hc
          rw [ht]
          cases hms : namedValuesOf child with
          | none =>
              rw [hms] at h
              rw [show printMembers child depth fmt = .error .null from h]
              rfl
          | some ms =>
              rw [hms] at h
              obtain ⟨ts, hts, hlen, htexts⟩ := h
              rw [hts]
              refine ⟨((stringText k).2, t) :: ts, rfl, congrArg Nat.succ hlen, ?_⟩
              intro hnames hreread
              have hname := stringText_chars (hnames c List.mem_cons_self k hk)
              exact .cons ⟨hname, htext hreread.1⟩
                (htexts (fun c' hc' ↦ hnames c' (List.mem_cons_of_mem c hc')) hreread.2)

theorem fillBlock_ok {size : ℕ} {out : List UInt8} (h : out.length < size) :
    fillBlock size out = .ok out := by
  rw [fillBlock, if_neg]
  exact not_lt.mpr h

variable {valuestring string : Option (List UInt8)} {valueint : Int32} {valuedouble : D}
  {child : List (CJson D)} {depth : ℕ} {fmt : Bool}

theorem prints_array
    (h : PrintsEntries child (valuesOf child) (printEntries child (depth + 1) fmt)) :
    Prints ⟨.array, valuestring, valueint, valuedouble, string, child⟩
      ((valuesOf child).map .array)
      (printValue ⟨.array, valuestring, valueint, valuedouble, string, child⟩ depth fmt) := by
  cases child with
  | nil => exact ⟨_, rfl, fun _ ↦ .emptyArray ws_nil⟩
  | cons c child =>
      rw [printValue, if_neg (by simp)]
      cases hvs : valuesOf (c :: child) with
      | none =>
          rw [hvs] at h
          rw [show printEntries (c :: child) (depth + 1) fmt = .error .null from h]
          rfl
      | some vs =>
          rw [hvs] at h
          obtain ⟨ts, hts, hlen, htexts⟩ := h
          have hne : vs ≠ [] := List.ne_nil_of_length_eq_add_one hlen
          have hfits := composeArray_length fmt ts
          rw [hts]
          refine ⟨_, fillBlock_ok ?_, fun hreread ↦ ?_⟩
          · rw [List.length_cons, List.length_append, List.length_singleton]
            omega
          · exact .array (composeArray_items fmt (htexts hreread) hne ws_nil)

theorem prints_object
    (h : PrintsMembers child (namedValuesOf child) (printMembers child (depth + 1) fmt)) :
    Prints ⟨.object, valuestring, valueint, valuedouble, string, child⟩
      ((namedValuesOf child).map .object)
      (printValue ⟨.object, valuestring, valueint, valuedouble, string, child⟩ depth fmt) := by
  have hline := ws_fmt fmt (Or.inr (Or.inr (Or.inl rfl)) : IsWs (byte '\n'))
  cases child with
  | nil =>
      rw [printValue, if_pos List.isEmpty_nil]
      refine ⟨_, fillBlock_ok ?_, fun _ ↦ .emptyObject ?_⟩
      · cases fmt
        · exact show 2 < 3 by decide
        · simp only [List.length_cons, List.length_append, List.length_nil, tabs,
            List.length_replicate, if_true]
          omega
      · cases fmt
        · exact ws_nil
        · exact ws_append hline (ws_tabs true _)
  | cons c child =>
      rw [printValue, if_neg (by simp)]
      cases hms : namedValuesOf (c :: child) with
      | none =>
          rw [hms] at h
          rw [show printMembers (c :: child) (depth + 1) fmt = .error .null from h]
          rfl
      | some ms =>
          rw [hms] at h
          obtain ⟨ts, hts, hlen, htexts⟩ := h
          have hne : ms ≠ [] := List.ne_nil_of_length_eq_add_one hlen
          have hfits := composeObject_length fmt (depth + 1) ts
          rw [hts]
          refine ⟨_, fillBlock_ok ?_, fun hreread ↦ ?_⟩
          · cases fmt <;>
              simp only [List.length_cons, List.length_append, List.length_nil, tabs,
                List.length_replicate, if_true, Bool.false_eq_true, if_false] at hfits ⊢ <;>
              omega
          · have hmembers := composeObject_members fmt (depth + 1)
              (htexts hreread.1 hreread.2) hne hline (ws_tabs fmt depth)
            rw [← List.append_assoc] at hmembers
            exact .object hmembers

mutual

theorem prints [SprintfFits D] : ∀ (item : CJson D) (depth : ℕ) (fmt : Bool),
    Prints item (valueOf item) (printValue item depth fmt)
  | ⟨type, valuestring, _, _, _, child⟩, depth, fmt => by
    cases type with
    | null => exact ⟨_, rfl, fun _ ↦ .null⟩
    | false => exact ⟨_, rfl, fun _ ↦ .false⟩
    | true => exact ⟨_, rfl, fun _ ↦ .true⟩
    | number =>
        refine ⟨_, printNumber_eq _, fun ⟨x, htext, hval⟩ ↦ ?_⟩
        rw [htext, ← hval]
        exact .number x
    | string =>
        cases valuestring with
        | none => rfl
        | some s =>
            refine ⟨_, printStringPtr_eq s, fun hreread ↦ ?_⟩
            obtain ⟨t, htext, ht⟩ := stringText_chars (hreread s rfl)
            rw [htext]
            exact .string ht
    | array => exact prints_array (printsEntries child (depth + 1) fmt)
    | object => exact prints_object (printsMembers child (depth + 1) fmt)

theorem printsEntries [SprintfFits D] : ∀ (child : List (CJson D)) (depth : ℕ) (fmt : Bool),
    PrintsEntries child (valuesOf child) (printEntries child depth fmt)
  | [], _, _ => ⟨[], rfl, rfl, fun _ ↦ .nil⟩
  | c :: child, depth, fmt => prints_entries (prints c depth fmt) (printsEntries child depth fmt)

theorem printsMembers [SprintfFits D] : ∀ (child : List (CJson D)) (depth : ℕ) (fmt : Bool),
    PrintsMembers child (namedValuesOf child) (printMembers child depth fmt)
  | [], _, _ => ⟨[], rfl, rfl, fun _ _ ↦ .nil⟩
  | c :: child, depth, fmt => prints_members (prints c depth fmt) (printsMembers child depth fmt)

end

end OsaBase
