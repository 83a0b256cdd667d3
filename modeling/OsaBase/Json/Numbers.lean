import Mathlib.Data.List.Basic
import Mathlib.Data.List.TakeWhile
import OsaBase.Json.Parse

/-!
# Numbers in `cJSON.c`

`parse_number` reads every numeral of JSON, to its end and no further.
-/

open Json

namespace OsaBase

variable {D : Type} [CDouble D]

open CDouble

/-! ## Digits -/

theorem isDigit_digit {d : ℕ} (hd : d < 10) : IsDigit (UInt8.ofNat (48 + d)) := by
  have htoNat : (UInt8.ofNat (48 + d)).toNat = 48 + d :=
    UInt8.toNat_ofNat_of_lt' (lt_of_lt_of_le (Nat.add_lt_add_left hd 48) (by decide))
  have hzero : (byte '0').toNat = 48 := rfl
  have hnine : (byte '9').toNat = 57 := rfl
  simp only [IsDigit, UInt8.le_iff_toNat_le, htoNat, hzero, hnine]
  omega

theorem digit_ne_zero {d : ℕ} (hd : d < 10) (hne : d ≠ 0) : UInt8.ofNat (48 + d) ≠ byte '0' := by
  intro h
  have htoNat : (UInt8.ofNat (48 + d)).toNat = 48 + d :=
    UInt8.toNat_ofNat_of_lt' (lt_of_lt_of_le (Nat.add_lt_add_left hd 48) (by decide))
  have := congrArg UInt8.toNat h
  have hzero : (byte '0').toNat = 48 := rfl
  omega

theorem isDigit_digitText {ds : List ℕ} (hds : ∀ d ∈ ds, d < 10) :
    ∀ c ∈ digitText ds, IsDigit c := by
  intro c hc
  obtain ⟨d, hd, rfl⟩ := List.mem_map.mp hc
  exact isDigit_digit (hds d hd)

theorem takeWhile_digits {ds : List ℕ} {rest : List UInt8} (hds : ∀ d ∈ ds, d < 10)
    (hrest : ¬IsDigit (peek rest)) :
    (digitText ds ++ rest).takeWhile (fun c ↦ IsDigit c) = digitText ds := by
  rw [List.takeWhile_append_of_pos fun c hc ↦ decide_eq_true (isDigit_digitText hds c hc)]
  cases rest with
  | nil => simp
  | cons b rest => rw [List.takeWhile_cons_of_neg (by simpa [peek] using hrest), List.append_nil]

theorem dropWhile_digits {ds : List ℕ} {rest : List UInt8} (hds : ∀ d ∈ ds, d < 10)
    (hrest : ¬IsDigit (peek rest)) :
    (digitText ds ++ rest).dropWhile (fun c ↦ IsDigit c) = rest := by
  rw [List.dropWhile_append_of_pos fun c hc ↦ decide_eq_true (isDigit_digitText hds c hc)]
  cases rest with
  | nil => rfl
  | cons b rest => rw [List.dropWhile_cons_of_neg (by simpa [peek] using hrest)]

/-- The digits `ds` behind those that gave `n`. -/
def decimals (n : D) (ds : List ℕ) : D :=
  ds.foldl (fun n d ↦ add (mul n (ofInt 10)) (ofInt (d : ℕ))) n

theorem toNat_digit {d : ℕ} (hd : d < 10) : ((UInt8.ofNat (48 + d)).toNat : ℤ) - 48 = d := by
  rw [UInt8.toNat_ofNat_of_lt' (lt_of_lt_of_le (Nat.add_lt_add_left hd 48) (by decide))]
  omega

theorem foldl_addDigit (n : D) {ds : List ℕ} (hds : ∀ d ∈ ds, d < 10) :
    (digitText ds).foldl addDigit n = decimals n ds := by
  rw [digitText, List.foldl_map, decimals]
  refine List.foldl_ext _ _ _ fun n d hd ↦ ?_
  rw [addDigit, toNat_digit (hds d hd)]

theorem readDigits_text (n : D) {ds : List ℕ} {rest : List UInt8} (hds : ∀ d ∈ ds, d < 10)
    (hrest : ¬IsDigit (peek rest)) :
    readDigits n (digitText ds ++ rest) = (decimals n ds, rest) := by
  rw [readDigits, takeWhile_digits hds hrest, dropWhile_digits hds hrest, foldl_addDigit n hds]

/-! ## Numerals -/

/-- `scale`, from the digits behind the point. -/
def scaleOf (frac : List ℕ) : D := frac.foldl (fun scale _ ↦ sub scale (ofInt 1)) (ofInt 0)

/-- `subscale` -/
def subscaleOf (ds : List ℕ) : ℤ := ds.foldl (fun subscale d ↦ int32 (subscale * 10 + (d : ℕ))) 0

/-- `subscale*signsubscale` -/
def exponentOf : Option Exponent → ℤ
  | none => 0
  | some e => int32 (subscaleOf e.digits * if e.sign = some true then -1 else 1)

/-- What the code reads a numeral as. -/
def numeralOf (x : Numeral) : D :=
  mul (mul (ofInt (if x.neg then -1 else 1))
      (decimals (if x.int = [0] then ofInt 0 else decimals (ofInt 0) x.int) x.frac))
    (pow (ofInt 10) (add (scaleOf x.frac) (ofInt (exponentOf x.exp))))

theorem peek_ends {rest : List UInt8} (hrest : Ends rest) :
    ¬IsDigit (peek rest) ∧ peek rest ≠ byte '.' ∧ peek rest ≠ byte 'e' ∧ peek rest ≠ byte 'E' := by
  cases rest with
  | nil => decide
  | cons b rest => exact hrest b rfl

theorem isDigit_ne {b : UInt8} (hb : IsDigit b) :
    b ≠ byte '+' ∧ b ≠ byte '-' ∧ b ≠ byte '.' ∧ b ≠ byte 'e' ∧ b ≠ byte 'E' := by
  refine ⟨?_, ?_, ?_, ?_, ?_⟩ <;>
    rintro rfl <;>
    revert hb <;>
    decide

theorem peek_digits {ds : List ℕ} (hds : ∀ d ∈ ds, d < 10) (hne : ds ≠ []) (rest : List UInt8) :
    IsDigit (peek (digitText ds ++ rest)) := by
  obtain ⟨d, ds, rfl⟩ := List.exists_cons_of_ne_nil hne
  exact isDigit_digit (hds d List.mem_cons_self)

theorem foldl_subscale {ds : List ℕ} (hds : ∀ d ∈ ds, d < 10) :
    (digitText ds).foldl (fun (subscale : ℤ) c ↦ int32 (subscale * 10 + (c.toNat - 48))) 0 =
      subscaleOf ds := by
  rw [digitText, List.foldl_map, subscaleOf]
  refine List.foldl_ext _ _ 0 fun n d hd ↦ ?_
  rw [toNat_digit (hds d hd)]

/-- A sign that was not there is read as none. -/
theorem sign_text (sign : Option Bool) {num : List UInt8} (hnum : IsDigit (peek num)) :
    let text := (match sign with
      | none => []
      | some neg => [if neg then byte '-' else byte '+']) ++ num
    (peek text = byte '-' ↔ sign = some true) ∧
      (if peek text = byte '+' ∨ peek text = byte '-' then text.tail else text) = num := by
  obtain ⟨hplus, hminus, -⟩ := isDigit_ne hnum
  rcases sign with - | - | -
  · simp [hplus, hminus]
  · exact ⟨iff_of_false (by decide : byte '+' ≠ byte '-') (by decide), rfl⟩
  · exact ⟨iff_of_true rfl rfl, rfl⟩

theorem readExponent_text (e : Option Exponent) {rest : List UInt8} (hrest : Ends rest) :
    let r := readExponent (expText e ++ rest)
    int32 (r.1 * r.2.1) = exponentOf e ∧ r.2.2 = rest := by
  obtain ⟨hdigit, -, he, hE⟩ := peek_ends hrest
  cases e with
  | none =>
      have hno : ¬(peek rest = byte 'e' ∨ peek rest = byte 'E') := fun h ↦ h.elim he hE
      simp only [expText, List.nil_append, readExponent, hno, if_false, exponentOf, and_true]
      decide
  | some e =>
      have hletter : peek (expText (some e) ++ rest) = byte 'e' ∨
          peek (expText (some e) ++ rest) = byte 'E' := by
        rw [expText, Exponent.text]
        split
        · exact Or.inr rfl
        · exact Or.inl rfl
      have htail : (expText (some e) ++ rest).tail =
          (match e.sign with
            | none => []
            | some neg => [if neg then byte '-' else byte '+']) ++
            (digitText e.digits ++ rest) := by
        rw [expText, Exponent.text, List.append_assoc]
        rfl
      obtain ⟨hsign, hnum⟩ := sign_text e.sign (peek_digits e.digits_lt e.digits_ne rest)
      rw [← htail] at hsign hnum
      simp only [readExponent, hletter, if_true, hnum]
      simp only [hsign, takeWhile_digits e.digits_lt hdigit, dropWhile_digits e.digits_lt hdigit,
        foldl_subscale e.digits_lt, exponentOf, and_true]

theorem readFraction_text (n : D) {frac : List ℕ} (hfrac : ∀ d ∈ frac, d < 10)
    {rest : List UInt8} (hdot : peek rest ≠ byte '.') (hdigit : ¬IsDigit (peek rest)) :
    readFraction n (fracText frac ++ rest) = (decimals n frac, scaleOf frac, rest) := by
  by_cases hne : frac = []
  · have hno : ¬(peek rest = byte '.' ∧ IsDigit (peek rest.tail)) := fun h ↦ hdot h.1
    simp only [hne, fracText, if_true, List.nil_append, readFraction, hno, if_false]
    rfl
  · have hdot' : peek (byte '.' :: (digitText frac ++ rest)) = byte '.' := rfl
    have hscale : (digitText frac).foldl (fun (scale : D) _ ↦ sub scale (ofInt 1)) (ofInt 0) =
        scaleOf frac := by
      rw [digitText, List.foldl_map]
      rfl
    simp only [fracText, hne, if_false, List.cons_append, readFraction, hdot', List.tail_cons,
      peek_digits hfrac hne, and_self, if_true, readDigits_text n hfrac hdigit,
      takeWhile_digits hfrac hdigit, hscale]

/-- A leading zero stands alone. -/
theorem readInt_text (x : Numeral) {rest : List UInt8} (hdigit : ¬IsDigit (peek rest)) :
    let num := digitText x.int ++ rest
    let num := if peek num = byte '0' then num.tail else num
    (if IsDigit (peek num) ∧ peek num ≠ byte '0' then readDigits (ofInt 0 : D) num
      else (ofInt 0, num)) =
      (if x.int = [0] then ofInt 0 else decimals (ofInt 0) x.int, rest) := by
  obtain ⟨d, ds, hint⟩ := List.exists_cons_of_ne_nil x.int_ne
  have hlt : d < 10 := x.int_lt d (hint ▸ List.mem_cons_self)
  by_cases hd : d = 0
  · have hzero : x.int = [0] := by rw [hint, hd, x.int_lead d ds hint hd]
    have hno : ¬(IsDigit (peek rest) ∧ peek rest ≠ byte '0') := fun h ↦ hdigit h.1
    have hpeek : peek (digitText [0] ++ rest) = byte '0' := rfl
    have htail : (digitText [0] ++ rest).tail = rest := rfl
    simp only [hzero, hpeek, htail, if_true, hno, if_false]
  · have hpeek : peek (digitText x.int ++ rest) ≠ byte '0' := by
      rw [hint]
      exact digit_ne_zero hlt hd
    have hne : x.int ≠ [0] := by
      rw [hint]
      exact fun h ↦ hd (List.cons.inj h).1
    simp only [hpeek, if_false, peek_digits x.int_lt x.int_ne, ne_eq, not_false_eq_true, and_self,
      if_true, hne, readDigits_text _ x.int_lt hdigit]

theorem peek_expText (e : Option Exponent) {rest : List UInt8} (hrest : Ends rest) :
    ¬IsDigit (peek (expText e ++ rest)) ∧ peek (expText e ++ rest) ≠ byte '.' := by
  cases e with
  | none => exact ⟨(peek_ends hrest).1, (peek_ends hrest).2.1⟩
  | some e =>
      rw [expText, Exponent.text]
      split
      · exact ⟨show ¬IsDigit (byte 'E') by decide, show byte 'E' ≠ byte '.' by decide⟩
      · exact ⟨show ¬IsDigit (byte 'e') by decide, show byte 'e' ≠ byte '.' by decide⟩

/-- The bytes of a numeral. -/
theorem numeral_bytes (x : Numeral) :
    ∀ c ∈ x.text, IsDigit c ∨ c ∈ [byte '-', byte '+', byte '.', byte 'e', byte 'E'] := by
  intro c hc
  simp only [Numeral.text, List.mem_append] at hc
  rcases hc with hc | hc | hc | hc
  · split at hc
    · rw [List.mem_singleton.mp hc]
      exact Or.inr (by decide)
    · cases hc
  · exact Or.inl (isDigit_digitText x.int_lt c hc)
  · rw [fracText] at hc
    split at hc
    · cases hc
    · rcases List.mem_cons.mp hc with rfl | hc
      · exact Or.inr (by decide)
      · exact Or.inl (isDigit_digitText x.frac_lt c hc)
  · cases hexp : x.exp with
    | none =>
        rw [hexp] at hc
        cases hc
    | some e =>
        rw [hexp, expText, Exponent.text, List.mem_append, List.mem_cons] at hc
        rcases hc with (rfl | hc) | hc
        · cases e.upper <;> exact Or.inr (by decide)
        · rcases hsign : e.sign with - | - | - <;>
            rw [hsign] at hc
          · cases hc
          · rw [List.mem_singleton.mp hc]
            exact Or.inr (by decide)
          · rw [List.mem_singleton.mp hc]
            exact Or.inr (by decide)
        · exact Or.inl (isDigit_digitText e.digits_lt c hc)

/-- `parse_number` reads a numeral and stops behind it. -/
theorem parseNumber_text (item : CJson D) (x : Numeral) {rest : List UInt8} (hrest : Ends rest) :
    parseNumber item (x.text ++ rest) =
      ({ item with
          type := .number
          valuedouble := numeralOf x
          valueint := toInt (numeralOf x : D) }, rest) := by
  obtain ⟨hdigit, hdot⟩ := peek_expText x.exp hrest
  have hfrac : ¬IsDigit (peek (fracText x.frac ++ (expText x.exp ++ rest))) := by
    rw [fracText]
    split
    · exact hdigit
    · exact show ¬IsDigit (byte '.') by decide
  obtain ⟨hexp, hend⟩ := readExponent_text x.exp hrest
  have htext : x.text ++ rest = (if x.neg then [byte '-'] else []) ++
      (digitText x.int ++ (fracText x.frac ++ (expText x.exp ++ rest))) := by
    simp only [Numeral.text, List.append_assoc]
  have hdigits := peek_digits x.int_lt x.int_ne (fracText x.frac ++ (expText x.exp ++ rest))
  have hsign : peek (x.text ++ rest) = byte '-' ↔ x.neg = true := by
    rw [htext]
    cases x.neg with
    | false => exact iff_of_false (isDigit_ne hdigits).2.1 (by decide)
    | true => exact iff_of_true rfl rfl
  have hnum : (if x.neg = true then (x.text ++ rest).tail else x.text ++ rest) =
      digitText x.int ++ (fracText x.frac ++ (expText x.exp ++ rest)) := by
    rw [htext]
    cases x.neg <;> rfl
  have hint := readInt_text (D := D) x hfrac
  simp only [parseNumber, hsign, hnum, hint, readFraction_text _ x.frac_lt hdot hdigit, hexp, hend,
    numeralOf]

end OsaBase
