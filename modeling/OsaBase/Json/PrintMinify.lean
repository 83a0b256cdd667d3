import OsaBase.Json.Buffered
import OsaBase.Json.Comments

/-!
# Minified printouts

The text of `cJSON_Print` is minified to the text of `cJSON_PrintUnformatted`.
-/

open Json

namespace OsaBase

variable {t t' u u' w : List UInt8}

theorem stripped_ws (hw : Ws w) : Stripped w [] := by
  refine stripped_blank ?_
  induction w with
  | nil => exact .nil
  | cons b w ih =>
      exact .space (hw b List.mem_cons_self) (ih fun c hc ↦ hw c (List.mem_cons_of_mem b hc))

theorem stripped_stringText {s : List UInt8} (hs : 0 ∉ s) :
    Stripped (stringText s).2 (stringText s).2 := by
  obtain ⟨t, ht, hchars⟩ := stringText_chars hs
  rw [ht]
  exact stripped_string hchars

variable {D : Type} [CDouble D] {c : CJson D} {child : List (CJson D)} {depth depth' : ℕ}

/-- The formatted text of an item is stripped to the unformatted one. -/
def Minifies (item : CJson D) (depth depth' : ℕ) : Prop :=
  ∀ t t', printValue item depth true = .ok t → printValue item depth' false = .ok t' →
    Rereads item → Stripped t t'

def MinifiesEntries (child : List (CJson D)) (depth depth' : ℕ) : Prop :=
  ∀ ts ts', printEntries child depth true = .ok ts → printEntries child depth' false = .ok ts' →
    AllReread child → Stripped (composeArray true ts) (composeArray false ts')

def MinifiesMembers (child : List (CJson D)) (depth depth' : ℕ) : Prop :=
  ∀ ts ts', printMembers child depth true = .ok ts → printMembers child depth' false = .ok ts' →
    (∀ c ∈ child, ∀ k ∈ c.string, 0 ∉ k) → AllReread child →
    Stripped (composeObject true depth ts) (composeObject false depth' ts')

theorem minifies_entries (hc : Minifies c depth depth')
    (h : MinifiesEntries child depth depth') : MinifiesEntries (c :: child) depth depth' := by
  intro ts ts' hprint hprint' hreread
  rw [printEntries] at hprint hprint'
  obtain ⟨t, ht, hprint⟩ := bind_ok hprint
  obtain ⟨r, hr, hprint⟩ := bind_ok hprint
  obtain ⟨t', ht', hprint'⟩ := bind_ok hprint'
  obtain ⟨r', hr', hprint'⟩ := bind_ok hprint'
  cases hprint
  cases hprint'
  have hcomma := stripped_byte (by decide : IsCopied (byte ','))
  have hspace := stripped_space (Or.inl rfl : IsWs (byte ' '))
  have hitem := hc t t' ht ht' hreread.1
  have hlen := printEntries_length hr
  have hlen' := printEntries_length hr'
  cases child with
  | nil =>
      obtain rfl := List.eq_nil_of_length_eq_zero hlen
      obtain rfl := List.eq_nil_of_length_eq_zero hlen'
      exact hitem
  | cons c' child =>
      obtain ⟨e, r, rfl⟩ := List.exists_cons_of_length_eq_add_one hlen
      obtain ⟨e', r', rfl⟩ := List.exists_cons_of_length_eq_add_one hlen'
      rw [composeArray_cons, composeArray_cons]
      exact hitem.append ((hcomma.append hspace).append (h _ _ hr hr' hreread.2))

theorem minifies_members (hc : Minifies c depth depth')
    (h : MinifiesMembers child depth depth') : MinifiesMembers (c :: child) depth depth' := by
  intro ts ts' hprint hprint' hnames hreread
  rw [printMembers] at hprint hprint'
  obtain ⟨name, hname, hprint⟩ := bind_ok hprint
  obtain ⟨t, ht, hprint⟩ := bind_ok hprint
  obtain ⟨r, hr, hprint⟩ := bind_ok hprint
  obtain ⟨name', hname', hprint'⟩ := bind_ok hprint'
  obtain ⟨t', ht', hprint'⟩ := bind_ok hprint'
  obtain ⟨r', hr', hprint'⟩ := bind_ok hprint'
  cases hprint
  cases hprint'
  have hkey : Stripped name name' := by
    cases hk : c.string with
    | none =>
        rw [hk] at hname
        cases hname
    | some k =>
        rw [hk, printStringPtr_eq] at hname hname'
        cases hname
        cases hname'
        exact stripped_stringText (hnames c List.mem_cons_self k hk)
  have hlen := printMembers_length hr
  have hlen' := printMembers_length hr'
  have hempty : r.isEmpty = r'.isEmpty := by
    rw [Bool.eq_iff_iff, List.isEmpty_iff_length_eq_zero, List.isEmpty_iff_length_eq_zero, hlen,
      hlen']
  have hindent := stripped_ws (ws_tabs true depth)
  have hcolon := stripped_byte (by decide : IsCopied (byte ':'))
  have htab := stripped_space (Or.inr (Or.inl rfl) : IsWs (byte '\t'))
  have hline := stripped_space (Or.inr (Or.inr (Or.inl rfl)) : IsWs (byte '\n'))
  have hcomma : Stripped (if r.isEmpty then [] else [byte ','])
      (if r'.isEmpty then [] else [byte ',']) := by
    rw [hempty]
    split
    · exact .nil
    · exact stripped_byte (by decide)
  have hrest := h _ _ hr hr' (fun c' hc' ↦ hnames c' (List.mem_cons_of_mem c hc')) hreread.2
  rw [composeObject, composeObject]
  exact (((((hindent.append hkey).append (hcolon.append htab)).append
    (hc t t' ht ht' hreread.1)).append hcomma).append hline).append hrest

section

variable {valuestring string : Option (List UInt8)} {valueint : Int32} {valuedouble : D}

theorem minifies_array (h : MinifiesEntries child (depth + 1) (depth' + 1)) :
    Minifies ⟨.array, valuestring, valueint, valuedouble, string, child⟩ depth depth' := by
  intro t t' hprint hprint' hreread
  rw [printValue] at hprint hprint'
  have hopen := stripped_byte (by decide : IsCopied (byte '['))
  have hclose := stripped_byte (by decide : IsCopied (byte ']'))
  by_cases hempty : child.isEmpty = true
  · rw [if_pos hempty] at hprint hprint'
    obtain ⟨rfl, -⟩ := fillBlock_inv hprint
    obtain ⟨rfl, -⟩ := fillBlock_inv hprint'
    exact hopen.append hclose
  · rw [if_neg hempty] at hprint hprint'
    obtain ⟨ts, hts, hprint⟩ := bind_ok hprint
    obtain ⟨ts', hts', hprint'⟩ := bind_ok hprint'
    obtain ⟨rfl, -⟩ := fillBlock_inv hprint
    obtain ⟨rfl, -⟩ := fillBlock_inv hprint'
    exact hopen.append ((h ts ts' hts hts' hreread).append hclose)

theorem minifies_object (h : MinifiesMembers child (depth + 1) (depth' + 1)) :
    Minifies ⟨.object, valuestring, valueint, valuedouble, string, child⟩ depth depth' := by
  intro t t' hprint hprint' hreread
  rw [printValue] at hprint hprint'
  have hopen := stripped_byte (by decide : IsCopied (byte '{'))
  have hclose := stripped_byte (by decide : IsCopied (byte '}'))
  have hline := stripped_space (Or.inr (Or.inr (Or.inl rfl)) : IsWs (byte '\n'))
  have htabs : ∀ n, Stripped (tabs n) [] := fun n ↦ stripped_ws (ws_tabs true n)
  by_cases hempty : child.isEmpty = true
  · rw [if_pos hempty] at hprint hprint'
    obtain ⟨rfl, -⟩ := fillBlock_inv hprint
    obtain ⟨rfl, -⟩ := fillBlock_inv hprint'
    exact hopen.append ((hline.append (htabs _)).append hclose)
  · rw [if_neg hempty] at hprint hprint'
    obtain ⟨ts, hts, hprint⟩ := bind_ok hprint
    obtain ⟨ts', hts', hprint'⟩ := bind_ok hprint'
    obtain ⟨rfl, -⟩ := fillBlock_inv hprint
    obtain ⟨rfl, -⟩ := fillBlock_inv hprint'
    have hmembers := h ts ts' hts hts' hreread.1 hreread.2
    exact hopen.append (((hline.append hmembers).append (htabs _)).append hclose)

end

mutual

theorem minifies : ∀ (item : CJson D) (depth depth' : ℕ), Minifies item depth depth'
  | ⟨type, valuestring, _, _, _, child⟩, depth, depth' => by
    cases type with
    | null | false | true =>
        intro t t' hprint hprint' _
        cases hprint
        cases hprint'
        exact stripped_copied rfl
    | number =>
        intro t t' hprint hprint' ⟨x, htext, _⟩
        obtain ⟨rfl, -⟩ := fillBlock_inv hprint
        obtain ⟨rfl, -⟩ := fillBlock_inv hprint'
        rw [htext]
        exact stripped_numeral x
    | string =>
        intro t t' hprint hprint' hreread
        cases valuestring with
        | none => cases hprint
        | some s =>
            rw [printValue, printStringPtr_eq] at hprint hprint'
            cases hprint
            cases hprint'
            exact stripped_stringText (hreread s rfl)
    | array => exact minifies_array (minifiesEntries child (depth + 1) (depth' + 1))
    | object => exact minifies_object (minifiesMembers child (depth + 1) (depth' + 1))

theorem minifiesEntries : ∀ (child : List (CJson D)) (depth depth' : ℕ),
    MinifiesEntries child depth depth'
  | [], _, _ => fun ts ts' hprint hprint' _ ↦ by
    cases hprint
    cases hprint'
    exact .nil
  | c :: child, depth, depth' =>
    minifies_entries (minifies c depth depth') (minifiesEntries child depth depth')

theorem minifiesMembers : ∀ (child : List (CJson D)) (depth depth' : ℕ),
    MinifiesMembers child depth depth'
  | [], _, _ => fun ts ts' hprint hprint' _ _ ↦ by
    cases hprint
    cases hprint'
    exact .nil
  | c :: child, depth, depth' =>
    minifies_members (minifies c depth depth') (minifiesMembers child depth depth')

end

/-- Minified, what `cJSON_Print` prints is what `cJSON_PrintUnformatted` prints. -/
theorem cJsonMinify_print [SprintfFits D] {item : CJson D} {v : Json D}
    (hvalue : valueOf item = some v) (hreread : Rereads item) :
    ∃ t t' tail, cJsonPrint item = .ok t ∧ cJsonPrintUnformatted item = .ok t' ∧
      cJsonMinify (t ++ [0]) = some (.done (t' ++ 0 :: tail)) := by
  have hprint := prints item 0 true
  have hprint' := prints item 0 false
  rw [hvalue] at hprint hprint'
  obtain ⟨t, ht, htext⟩ := hprint
  obtain ⟨t', ht', -⟩ := hprint'
  obtain ⟨tail, hmin, -⟩ := cJsonMinify_stripped (text_nul (htext hreread))
    (minifies item 0 0 t t' ht ht' hreread)
  exact ⟨t, t', tail, ht, ht', hmin⟩

/-- An object with an array of two items and an object in it. -/
theorem cJsonMinify_print_nested :
    ∃ t t' tail,
      cJsonPrint (itemOf none (.object [([byte 'a'], .array [.number ((-7 : ℤ) : ℚ),
        .string [byte ' ', byte '/']]), ([byte 'b'], .object [([byte 'c'], .bool true)])])) =
          .ok t ∧
      cJsonPrintUnformatted (itemOf none (.object [([byte 'a'], .array [.number ((-7 : ℤ) : ℚ),
        .string [byte ' ', byte '/']]), ([byte 'b'], .object [([byte 'c'], .bool true)])])) =
          .ok t' ∧
      cJsonMinify (t ++ [0]) = some (.done (t' ++ 0 :: tail)) :=
  cJsonMinify_print (valueOf_itemOf none _)
    (rereads_itemOf none _
      ⟨⟨by decide, ⟨-7, rfl⟩, (by decide : 0 ∉ [byte ' ', byte '/']), trivial⟩,
        ⟨by decide, ⟨by decide, trivial⟩, trivial⟩, trivial⟩)

end OsaBase
