import Mathlib.Data.Nat.Notation

/-!
# JSON texts

The values of JSON and the texts that denote them, as bytes. A string is its UTF-8 bytes, none of
them NUL; a text may write any of its characters as an escape. What a number is does not matter
here: it is what its numeral is read as.
-/

inductive Json (N : Type*)
  | null
  | bool (b : Bool)
  | number (x : N)
  | string (s : List UInt8)
  | array (vs : List (Json N))
  | object (ms : List (List UInt8 × Json N))

namespace Json

/-- An ASCII character. -/
abbrev byte (c : Char) : UInt8 := c.toUInt8

def IsWs (b : UInt8) : Prop := b = byte ' ' ∨ b = byte '\t' ∨ b = byte '\n' ∨ b = byte '\r'

instance (b : UInt8) : Decidable (IsWs b) := inferInstanceAs (Decidable (_ ∨ _))

def Ws (w : List UInt8) : Prop := ∀ b ∈ w, IsWs b

theorem ws_nil : Ws [] := fun _ h ↦ nomatch h

theorem ws_append {w w' : List UInt8} (hw : Ws w) (hw' : Ws w') : Ws (w ++ w') := by
  intro b hb
  rcases List.mem_append.mp hb with hb | hb
  · exact hw b hb
  · exact hw' b hb

/-! ## Numerals -/

def IsDigit (b : UInt8) : Prop := byte '0' ≤ b ∧ b ≤ byte '9'

instance (b : UInt8) : Decidable (IsDigit b) := inferInstanceAs (Decidable (_ ∧ _))

def digitText (ds : List ℕ) : List UInt8 := ds.map fun d ↦ UInt8.ofNat (48 + d)

/-- An exponent: whether it is written with `E`, its sign if it has one, and its digits. -/
structure Exponent where
  upper : Bool
  sign : Option Bool
  digits : List ℕ
  digits_ne : digits ≠ []
  digits_lt : ∀ d ∈ digits, d < 10

def Exponent.text (e : Exponent) : List UInt8 :=
  (if e.upper then byte 'E' else byte 'e') ::
    (match e.sign with
      | none => []
      | some neg => [if neg then byte '-' else byte '+']) ++ digitText e.digits

/-- A numeral; `frac` is empty where there is no decimal point. -/
structure Numeral where
  neg : Bool
  int : List ℕ
  frac : List ℕ
  exp : Option Exponent
  int_ne : int ≠ []
  int_lt : ∀ d ∈ int, d < 10
  /-- No leading zero. -/
  int_lead : ∀ d ds, int = d :: ds → d = 0 → ds = []
  frac_lt : ∀ d ∈ frac, d < 10

def fracText (frac : List ℕ) : List UInt8 :=
  if frac = [] then [] else byte '.' :: digitText frac

def expText : Option Exponent → List UInt8
  | none => []
  | some e => e.text

def Numeral.text (x : Numeral) : List UInt8 :=
  (if x.neg then [byte '-'] else []) ++ (digitText x.int ++ (fracText x.frac ++ expText x.exp))

/-- What may follow a numeral. -/
def Ends (rest : List UInt8) : Prop :=
  ∀ b ∈ rest.head?, ¬IsDigit b ∧ b ≠ byte '.' ∧ b ≠ byte 'e' ∧ b ≠ byte 'E'

/-! ## Strings -/

def hexVal (b : UInt8) : Option ℕ :=
  if byte '0' ≤ b ∧ b ≤ byte '9' then some (b.toNat - 48)
  else if byte 'A' ≤ b ∧ b ≤ byte 'F' then some (10 + (b.toNat - 65))
  else if byte 'a' ≤ b ∧ b ≤ byte 'f' then some (10 + (b.toNat - 97))
  else none

/-- `n` is written with four hexadecimal digits. -/
inductive Hex4 : ℕ → List UInt8 → Prop
  | mk {a b c d : UInt8} {w x y z : ℕ} (ha : hexVal a = some w) (hb : hexVal b = some x)
      (hc : hexVal c = some y) (hd : hexVal d = some z) :
      Hex4 (((w * 16 + x) * 16 + y) * 16 + z) [a, b, c, d]

def shortEscape (e : UInt8) : Option UInt8 :=
  if e = byte '"' ∨ e = byte '\\' ∨ e = byte '/' then some e
  else if e = byte 'b' then some 8
  else if e = byte 'f' then some 12
  else if e = byte 'n' then some 10
  else if e = byte 'r' then some 13
  else if e = byte 't' then some 9
  else none

def highSurrogate (u : Char) : ℕ := 0xD800 + (u.toNat - 0x10000) / 0x400

def lowSurrogate (u : Char) : ℕ := 0xDC00 + (u.toNat - 0x10000) % 0x400

/-- The text between the quotes of the string `s`. -/
inductive Chars : List UInt8 → List UInt8 → Prop
  | nil : Chars [] []
  | raw {s t : List UInt8} (c : UInt8) (hc : 0x20 ≤ c) (hquote : c ≠ byte '"')
      (hslash : c ≠ byte '\\') (h : Chars s t) : Chars (c :: s) (c :: t)
  | short {s t : List UInt8} {e c : UInt8} (he : shortEscape e = some c) (h : Chars s t) :
      Chars (c :: s) (byte '\\' :: e :: t)
  | unicode {s t hex : List UInt8} (u : Char) (hpos : 0 < u.toNat) (hlt : u.toNat < 0x10000)
      (hhex : Hex4 u.toNat hex) (h : Chars s t) :
      Chars (String.utf8EncodeChar u ++ s) (byte '\\' :: byte 'u' :: (hex ++ t))
  | pair {s t hi lo : List UInt8} (u : Char) (hle : 0x10000 ≤ u.toNat)
      (hhi : Hex4 (highSurrogate u) hi) (hlo : Hex4 (lowSurrogate u) lo) (h : Chars s t) :
      Chars (String.utf8EncodeChar u ++ s)
        (byte '\\' :: byte 'u' :: (hi ++ byte '\\' :: byte 'u' :: (lo ++ t)))

/-! ## Texts -/

/-- A value, or what stands between the brackets of an array or an object. -/
inductive Piece (N : Type*)
  | value (v : Json N)
  | items (vs : List (Json N))
  | members (ms : List (List UInt8 × Json N))

variable {N : Type*}

/-- The texts of a piece, a numeral being read by `val`; `blank` may stand between the tokens. -/
inductive Denotes (blank : List UInt8 → Prop) (val : Numeral → N) : Piece N → List UInt8 → Prop
  | null : Denotes blank val (.value .null) [byte 'n', byte 'u', byte 'l', byte 'l']
  | true : Denotes blank val (.value (.bool true)) [byte 't', byte 'r', byte 'u', byte 'e']
  | false :
      Denotes blank val (.value (.bool false)) [byte 'f', byte 'a', byte 'l', byte 's', byte 'e']
  | number (x : Numeral) : Denotes blank val (.value (.number (val x))) x.text
  | string {s t : List UInt8} (h : Chars s t) :
      Denotes blank val (.value (.string s)) (byte '"' :: (t ++ [byte '"']))
  | emptyArray {w : List UInt8} (hw : blank w) :
      Denotes blank val (.value (.array [])) (byte '[' :: (w ++ [byte ']']))
  | array {vs : List (Json N)} {t : List UInt8} (h : Denotes blank val (.items vs) t) :
      Denotes blank val (.value (.array vs)) (byte '[' :: (t ++ [byte ']']))
  | emptyObject {w : List UInt8} (hw : blank w) :
      Denotes blank val (.value (.object [])) (byte '{' :: (w ++ [byte '}']))
  | object {ms : List (List UInt8 × Json N)} {t : List UInt8}
      (h : Denotes blank val (.members ms) t) :
      Denotes blank val (.value (.object ms)) (byte '{' :: (t ++ [byte '}']))
  | lastItem {v : Json N} {w t w' : List UInt8} (hw : blank w) (h : Denotes blank val (.value v) t)
      (hw' : blank w') : Denotes blank val (.items [v]) (w ++ (t ++ w'))
  | item {v : Json N} {vs : List (Json N)} {w t w' r : List UInt8} (hw : blank w)
      (h : Denotes blank val (.value v) t) (hw' : blank w') (hr : Denotes blank val (.items vs) r) :
      Denotes blank val (.items (v :: vs)) (w ++ (t ++ (w' ++ byte ',' :: r)))
  | lastMember {k : List UInt8} {v : Json N} {w kt w₁ w₂ t w' : List UInt8} (hw : blank w)
      (hk : Chars k kt) (hw₁ : blank w₁) (hw₂ : blank w₂) (h : Denotes blank val (.value v) t)
      (hw' : blank w') :
      Denotes blank val (.members [(k, v)])
        (w ++ (byte '"' :: (kt ++ byte '"' :: (w₁ ++ byte ':' :: (w₂ ++ (t ++ w'))))))
  | member {k : List UInt8} {v : Json N} {ms : List (List UInt8 × Json N)}
      {w kt w₁ w₂ t w' r : List UInt8} (hw : blank w) (hk : Chars k kt) (hw₁ : blank w₁)
      (hw₂ : blank w₂) (h : Denotes blank val (.value v) t) (hw' : blank w')
      (hr : Denotes blank val (.members ms) r) :
      Denotes blank val (.members ((k, v) :: ms))
        (w ++ (byte '"' :: (kt ++ byte '"' :: (w₁ ++ byte ':' ::
          (w₂ ++ (t ++ (w' ++ byte ',' :: r)))))))

/-- `t` is a text of `v`. -/
abbrev Text (val : Numeral → N) (v : Json N) (t : List UInt8) : Prop := Denotes Ws val (.value v) t

end Json
