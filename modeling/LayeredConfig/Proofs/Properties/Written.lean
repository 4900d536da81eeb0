import LayeredConfig.Proofs.Properties.Line
import LayeredConfig.Proofs.Text.Lines
import LayeredConfig.Proofs.Text.Utf16
import LayeredConfig.Properties.Parser
import Mathlib.Data.List.TakeWhile

/-! Every list of entries can be written, and is read back. A character has several written forms: it may
stand for itself where nothing takes it for something else, be written with one of the four letters for
control characters, follow a backslash, or be spelled by its 16-bit units. Each form is taken apart the
same way wherever it stands: it ends no line, holds no separator, leaves no backslash open, and is
unescaped to its character. So any mixture of forms is read as the entries that were written. -/

namespace LayeredConfig.Properties

/-! ### Written forms -/

/-- A digit of value `n`, in either case. -/
inductive HexDigit : Nat → Char → Prop
  | lower {n : Nat} (h : n < 16) : HexDigit n (Nat.digitChar n)
  | upper {n : Nat} (h : n < 16) : HexDigit n (Nat.digitChar n).toUpper

/-- 16-bit units, each as a backslash, `u` and four digits. -/
inductive Spelled : List Nat → Text → Prop
  | nil : Spelled [] []
  | cons {i j k l : Nat} {a b c d : Char} {units : List Nat} {t : Text} (ha : HexDigit i a)
      (hb : HexDigit j b) (hc : HexDigit k c) (hd : HexDigit l d) (hrest : Spelled units t) :
      Spelled ((((i * 16 + j) * 16 + k) * 16 + l) :: units) ('\\' :: 'u' :: a :: b :: c :: d :: t)

/-- The written forms of a character; `plain` says which characters may stand for themselves. -/
inductive WrittenChar (plain : Char → Prop) : Char → Text → Prop
  | literal {c : Char} (h : plain c) : WrittenChar plain c [c]
  | tab : WrittenChar plain '\t' ['\\', 't']
  | lineFeed : WrittenChar plain '\n' ['\\', 'n']
  | carriageReturn : WrittenChar plain '\r' ['\\', 'r']
  | formFeed : WrittenChar plain '\x0c' ['\\', 'f']
  | escaped {c : Char} (h : c ∉ ['t', 'n', 'r', 'f', 'u', '\n', '\r']) : WrittenChar plain c ['\\', c]
  | units {c : Char} {t : Text} (h : Spelled (Utf16.units c) t) : WrittenChar plain c t

/-- The written forms of a text. Fewer characters may stand for themselves at its start. -/
inductive Written (plain : Char → Prop) : (Char → Prop) → Text → Text → Prop
  | nil {first : Char → Prop} : Written plain first [] []
  | cons {first : Char → Prop} {c : Char} {s form t : Text} (hc : WrittenChar first c form)
      (hrest : Written plain plain s t) : Written plain first (c :: s) (form ++ t)

/-- Characters that may stand for themselves in a value; a blank may not begin it. -/
def PlainInValue (c : Char) : Prop := c ∉ ['\\', '\n', '\r']

def PlainAtValue (c : Char) : Prop := PlainInValue c ∧ c ∉ [' ', '\t', '\x0c']

/-- Characters that may stand for themselves in a key; a comment mark may not begin it. -/
def PlainInKey (c : Char) : Prop := PlainInValue c ∧ c ∉ ['=', ':', ' ', '\t', '\x0c']

def PlainAtKey (c : Char) : Prop := PlainInKey c ∧ c ∉ ['#', '!']

/-- The written forms of entries, one on each line. -/
inductive WrittenEntries : List (Text × Text) → Text → Prop
  | nil : WrittenEntries [] []
  | cons {key value k v t : Text} {entries : List (Text × Text)}
      (hkey : Written PlainInKey PlainAtKey key k) (hvalue : Written PlainInValue PlainAtValue value v)
      (hrest : WrittenEntries entries t) :
      WrittenEntries ((key, value) :: entries) (k ++ '=' :: (v ++ '\n' :: t))

/-! ### Digits and units -/

theorem HexDigit.value {n : Nat} {a : Char} (h : HexDigit n a) : Decimal.digitValue? 16 a = some n := by
  have hboth : ∀ n < 16, Decimal.digitValue? 16 (Nat.digitChar n) = some n ∧
      Decimal.digitValue? 16 (Nat.digitChar n).toUpper = some n := by decide
  cases h with
  | lower h => exact (hboth n h).1
  | upper h => exact (hboth n h).2

/-- A digit is no sign, and may stand for itself in a key and in a value; those that may not have no value. -/
theorem HexDigit.plain {n : Nat} {a : Char} (h : HexDigit n a) : a ≠ '+' ∧ PlainInKey a := by
  have hnone : ∀ c ∈ '+' :: (['\\', '\n', '\r'] ++ ['=', ':', ' ', '\t', '\x0c']),
      Decimal.digitValue? 16 c = none := by simp [Decimal.digitValue?]
  have hout : a ∉ '+' :: (['\\', '\n', '\r'] ++ ['=', ':', ' ', '\t', '\x0c']) := by
    intro hmem
    have hvalue := h.value
    rw [hnone a hmem] at hvalue
    cases hvalue
  rw [List.mem_cons, List.mem_append, not_or, not_or] at hout
  exact hout

theorem unit?_digits {i j k l : Nat} {a b c d : Char} (ha : HexDigit i a) (hb : HexDigit j b)
    (hc : HexDigit k c) (hd : HexDigit l d) :
    unit? [a, b, c, d] = some (((i * 16 + j) * 16 + k) * 16 + l) := by
  have hsign : unit? [a, b, c, d] = Decimal.readDigits? 16 [a, b, c, d] := by
    rw [unit?]
    exact fun _ heq => absurd (List.cons.inj heq).1 ha.plain.1
  rw [hsign]
  simp [Decimal.readDigits?, ha.value, hb.value, hc.value, hd.value]

theorem exists_spelled {units : List Nat} (h : ∀ unit ∈ units, unit < 0x10000) :
    ∃ t, Spelled units t := by
  induction units with
  | nil => exact ⟨[], .nil⟩
  | cons unit units ih =>
      obtain ⟨hunit, hunits⟩ := List.forall_mem_cons.1 h
      obtain ⟨t, ht⟩ := ih hunits
      have hdigits :
          ((unit / 4096 * 16 + unit / 256 % 16) * 16 + unit / 16 % 16) * 16 + unit % 16 = unit := by
        omega
      have hspelled := Spelled.cons (.lower (show unit / 4096 < 16 by omega))
        (.lower (show unit / 256 % 16 < 16 by omega)) (.lower (show unit / 16 % 16 < 16 by omega))
        (.lower (show unit % 16 < 16 by omega)) ht
      rw [hdigits] at hspelled
      exact ⟨_, hspelled⟩

/-! ### Cuts

The scans of the parser look at a text character by character, and pass over the character after a
backslash. All they need of a written form is that it can be cut that way. -/

/-- A text cut into characters of one kind and backslashes, each with a character that ends no line. -/
inductive Cut (plain : Char → Prop) : Text → Prop
  | nil : Cut plain []
  | one {c : Char} {t : Text} (h : plain c) (hrest : Cut plain t) : Cut plain (c :: t)
  | escape {c : Char} {t : Text} (h : c ∉ ['\n', '\r']) (hrest : Cut plain t) :
      Cut plain ('\\' :: c :: t)

section Cut

variable {plain first : Char → Prop} {s t : Text}

theorem Cut.mono {wider : Char → Prop} (h : Cut plain t) (hplain : ∀ c, plain c → wider c) :
    Cut wider t := by
  induction h with
  | nil => exact .nil
  | one hc _ ih => exact .one (hplain _ hc) ih
  | escape hc _ ih => exact .escape hc ih

theorem Cut.append {t' : Text} (h : Cut plain t) (h' : Cut plain t') : Cut plain (t ++ t') := by
  induction h with
  | nil => exact h'
  | one hc _ ih => exact .one hc ih
  | escape hc _ ih => exact .escape hc ih

theorem Cut.not_mem {c : Char} (h : Cut PlainInValue t) (hc : c ∈ ['\n', '\r']) : c ∉ t := by
  have hne : c ≠ '\\' := by rintro rfl; revert hc; decide
  induction h with
  | nil => exact List.not_mem_nil
  | one hplain _ ih =>
      rw [List.mem_cons, not_or]
      exact ⟨fun heq => hplain (heq ▸ List.mem_cons_of_mem _ hc), ih⟩
  | escape hout _ ih =>
      rw [List.mem_cons, List.mem_cons, not_or, not_or]
      exact ⟨hne, fun heq => hout (heq ▸ hc), ih⟩

theorem Cut.not_dangling (h : Cut PlainInValue t) : dangling t = false := by
  induction h with
  | nil => rfl
  | one hc _ ih =>
      rw [dangling_cons_of_ne (fun heq => hc (heq ▸ List.mem_cons_self ..)), ih]
  | escape _ _ ih => rwa [dangling]

theorem splitKey_cons_of_plain {c : Char} (h : PlainInKey c) (t : Text) :
    splitKey (c :: t) = (c :: (splitKey t).1, (splitKey t).2) := by
  obtain ⟨hvalue, hkey⟩ := h
  have hescape : c ≠ '\\' := fun heq => hvalue (heq ▸ List.mem_cons_self ..)
  have hinside : (isSeparator c || isBlank c) = false := by
    simp only [List.mem_cons, List.not_mem_nil, or_false, not_or] at hkey
    simp [isSeparator, isBlank, hkey]
  rw [splitKey]
  · rw [hinside, if_neg Bool.false_ne_true]
  · exact fun _ _ heq => absurd heq hescape

theorem Cut.splitKey_eq (h : Cut PlainInKey t) (rest : Text) :
    splitKey (t ++ '=' :: rest) = (t, '=' :: rest) := by
  induction h with
  | nil => rfl
  | one hc _ ih => rw [List.cons_append, splitKey_cons_of_plain hc, ih]
  | escape _ _ ih => rw [List.cons_append, List.cons_append, splitKey, ih]

theorem Spelled.cut {units : List Nat} (h : Spelled units t) : Cut PlainInKey t := by
  induction h with
  | nil => exact .nil
  | cons ha hb hc hd _ ih =>
      exact .escape (by decide) (.one ha.plain.2 (.one hb.plain.2 (.one hc.plain.2 (.one hd.plain.2 ih))))

theorem WrittenChar.cut {c : Char} {form : Text} (h : WrittenChar first c form)
    (hfirst : ∀ c, first c → plain c) (hplain : ∀ c, PlainInKey c → plain c) : Cut plain form := by
  cases h with
  | literal hc => exact .one (hfirst _ hc) .nil
  | tab => exact .escape (by decide) .nil
  | lineFeed => exact .escape (by decide) .nil
  | carriageReturn => exact .escape (by decide) .nil
  | formFeed => exact .escape (by decide) .nil
  | escaped hc =>
      exact .escape (fun hend => hc (List.mem_append_right ['t', 'n', 'r', 'f', 'u'] hend)) .nil
  | units hform => exact hform.cut.mono hplain

theorem Written.cut (h : Written plain first s t) (hfirst : ∀ c, first c → plain c)
    (hplain : ∀ c, PlainInKey c → plain c) : Cut plain t := by
  induction h with
  | nil => exact .nil
  | cons hc _ ih => exact (hc.cut hfirst hplain).append (ih fun _ h => h)

theorem WrittenChar.head {c : Char} {form : Text} (h : WrittenChar first c form) :
    ∃ x rest, form = x :: rest ∧ (x = '\\' ∨ first x) := by
  cases h with
  | literal hc => exact ⟨_, _, rfl, .inr hc⟩
  | tab => exact ⟨_, _, rfl, .inl rfl⟩
  | lineFeed => exact ⟨_, _, rfl, .inl rfl⟩
  | carriageReturn => exact ⟨_, _, rfl, .inl rfl⟩
  | formFeed => exact ⟨_, _, rfl, .inl rfl⟩
  | escaped => exact ⟨_, _, rfl, .inl rfl⟩
  | units hform =>
      generalize hunits : Utf16.units c = units at hform
      cases hform with
      | nil => exact absurd hunits (Utf16.units_ne_nil c)
      | cons => exact ⟨_, _, rfl, .inl rfl⟩

/-- A written text starts with a backslash or with a character that may stand there. -/
theorem Written.head (h : Written plain first s t) :
    t = [] ∨ ∃ x rest, t = x :: rest ∧ (x = '\\' ∨ first x) := by
  cases h with
  | nil => exact .inl rfl
  | cons hc hrest =>
      obtain ⟨x, rest, rfl, hx⟩ := hc.head
      exact .inr ⟨x, rest ++ _, rfl, hx⟩

end Cut

/-! ### Unescaping -/

/-- However many characters wait to be decoded, they are followed by what the text says. -/
def Reads (t s : Text) : Prop := ∀ before, unescapeAfter (Utf16.encode before) t = .ok (before ++ s)

theorem decodeUnits_encode (t : Text) : decodeUnits (Utf16.encode t) = .ok t := by
  rw [decodeUnits, Utf16.decode_encode]
  rfl

section Reads

variable {s t : Text}

theorem reads_nil : Reads [] [] := by
  intro before
  rw [unescapeAfter, decodeUnits_encode, List.append_nil]

theorem Reads.literal {c : Char} (hc : c ≠ '\\') (h : Reads t s) : Reads (c :: t) (c :: s) := by
  intro before
  have hrest : unescapeAfter [] t = .ok s := h []
  rw [unescapeAfter, decodeUnits_encode, hrest]
  · rfl
  all_goals simp [hc]

theorem Reads.escape {c : Char} (hc : c ≠ 'u') (h : Reads t s) :
    Reads ('\\' :: c :: t) (escaped c :: s) := by
  intro before
  have hrest : unescapeAfter [] t = .ok s := h []
  rw [unescapeAfter, decodeUnits_encode, hrest]
  · rfl
  all_goals simp [hc]

/-- Spelled units are not decoded where they end, but wait for the units after them: a pair of surrogates is
two escapes. -/
theorem unescapeAfter_spelled {units : List Nat} {form : Text} (h : Spelled units form) (before : List Nat)
    (t : Text) : unescapeAfter before (form ++ t) = unescapeAfter (before ++ units) t := by
  induction h generalizing before with
  | nil => rw [List.nil_append, List.append_nil]
  | cons ha hb hc hd _ ih =>
      simp only [List.cons_append]
      rw [unescapeAfter, unit?_digits ha hb hc hd]
      dsimp only
      rw [ih, List.append_assoc, List.singleton_append]

theorem Reads.spelled {c : Char} {form : Text} (hform : Spelled (Utf16.units c) form) (h : Reads t s) :
    Reads (form ++ t) (c :: s) := by
  intro before
  have hencode : Utf16.encode before ++ Utf16.units c = Utf16.encode (before ++ [c]) := by
    simp [Utf16.encode]
  rw [unescapeAfter_spelled hform, hencode, h, List.append_assoc, List.singleton_append]

theorem escaped_of_not_mem {c : Char} (h : c ∉ ['t', 'n', 'r', 'f', 'u', '\n', '\r']) :
    escaped c = c := by
  simp only [List.mem_cons, not_or] at h
  simp [escaped, h]

theorem WrittenChar.reads {plain : Char → Prop} {c : Char} {form : Text} (h : WrittenChar plain c form)
    (hplain : ∀ c, plain c → PlainInValue c) (hrest : Reads t s) : Reads (form ++ t) (c :: s) := by
  cases h with
  | literal hc =>
      have hescape : c ≠ '\\' := by
        rintro rfl
        exact hplain _ hc (List.mem_cons_self ..)
      exact hrest.literal hescape
  | tab => exact hrest.escape (c := 't') (by decide)
  | lineFeed => exact hrest.escape (c := 'n') (by decide)
  | carriageReturn => exact hrest.escape (c := 'r') (by decide)
  | formFeed => exact hrest.escape (c := 'f') (by decide)
  | escaped hc =>
      -- The letters with a meaning of their own are left out, and any other character escapes to itself.
      have hu : c ≠ 'u' := by rintro rfl; revert hc; decide
      have hread := hrest.escape hu
      rwa [escaped_of_not_mem hc] at hread
  | units hform => exact hrest.spelled hform

theorem Written.reads {plain first : Char → Prop} (h : Written plain first s t)
    (hfirst : ∀ c, first c → PlainInValue c) (hplain : ∀ c, plain c → PlainInValue c) : Reads t s := by
  induction h with
  | nil => exact reads_nil
  | cons hc _ ih => exact hc.reads hfirst (ih hplain)

end Reads

/-! ### Entries -/

section Entries

variable {key value k v : Text}

theorem trimStart_cons_of_not_blank {c : Char} (h : isBlank c = false) (t : Text) :
    trimStart (c :: t) = c :: t := by
  rw [trimStart, List.dropWhile_cons, h, if_neg Bool.false_ne_true]

theorem trimStart_eq_self_iff : trimStart value = value ↔ ∀ c ∈ value.head?, isBlank c = false := by
  cases value with
  | nil => simp [trimStart]
  | cons c value =>
      rw [trimStart, List.dropWhile_eq_self_iff]
      simp

theorem trimStart_value (h : Written PlainInValue PlainAtValue value v) : trimStart v = v := by
  obtain rfl | ⟨x, rest, rfl, hx⟩ := h.head
  · rfl
  · apply trimStart_cons_of_not_blank
    rcases hx with rfl | ⟨-, hblank⟩
    · rfl
    · simpa [isBlank, and_assoc] using hblank

/-- The line of an entry starts with a character that starts an entry. -/
theorem line_head (h : Written PlainInKey PlainAtKey key k) (v : Text) :
    ∃ x rest, k ++ '=' :: v = x :: rest ∧ isBlank x = false ∧ isIdle (x :: rest) = false := by
  obtain rfl | ⟨x, rest, rfl, hx⟩ := h.head
  · exact ⟨'=', v, rfl, rfl, rfl⟩
  · refine ⟨x, rest ++ '=' :: v, rfl, ?_⟩
    rcases hx with rfl | ⟨⟨-, hkey⟩, hmark⟩
    · exact ⟨rfl, rfl⟩
    · simp only [List.mem_cons, List.not_mem_nil, or_false, not_or] at hkey hmark
      simp [isBlank, isIdle, hkey, hmark]

theorem trimStart_line (h : Written PlainInKey PlainAtKey key k) (v : Text) :
    trimStart (k ++ '=' :: v) = k ++ '=' :: v := by
  obtain ⟨x, rest, heq, hblank, -⟩ := line_head h v
  rw [heq, trimStart_cons_of_not_blank hblank]

theorem isIdle_line (h : Written PlainInKey PlainAtKey key k) (v : Text) :
    isIdle (k ++ '=' :: v) = false := by
  obtain ⟨x, rest, heq, -, hidle⟩ := line_head h v
  rw [heq, hidle]

theorem Written.cut_key (h : Written PlainInKey PlainAtKey key k) : Cut PlainInKey k :=
  h.cut (fun _ hc => hc.1) (fun _ hc => hc)

theorem Written.cut_value (h : Written PlainInValue PlainAtValue value v) : Cut PlainInValue v :=
  h.cut (fun _ hc => hc.1) (fun _ hc => hc.1)

theorem cut_line (hkey : Written PlainInKey PlainAtKey key k)
    (hvalue : Written PlainInValue PlainAtValue value v) : Cut PlainInValue (k ++ '=' :: v) := by
  have hseparator : PlainInValue '=' := by
    unfold PlainInValue
    decide
  exact (hkey.cut_key.mono fun _ hc => hc.1).append (.one hseparator hvalue.cut_value)

theorem splitEntry_line (hkey : Written PlainInKey PlainAtKey key k)
    (hvalue : Written PlainInValue PlainAtValue value v) : splitEntry (k ++ '=' :: v) = (k, v) := by
  have hpart : valuePart ('=' :: v) = v := by
    rw [valuePart, trimStart_cons_of_not_blank rfl]
    exact trimStart_value hvalue
  rw [splitEntry, hkey.cut_key.splitKey_eq]
  dsimp only
  rw [hpart]

theorem parseEntry_line (number : Nat) (hkey : Written PlainInKey PlainAtKey key k)
    (hvalue : Written PlainInValue PlainAtValue value v) :
    parseEntry ⟨number, k ++ '=' :: v⟩ = .ok (key, value) := by
  have hunkey : unescape k = .ok key := hkey.reads (fun _ hc => hc.1.1) (fun _ hc => hc.1) []
  have hunvalue : unescape v = .ok value := hvalue.reads (fun _ hc => hc.1) (fun _ hc => hc) []
  rw [parseEntry, splitEntry_line hkey hvalue]
  dsimp only
  rw [hunkey, hunvalue]
  rfl

theorem lines_entry (hkey : Written PlainInKey PlainAtKey key k)
    (hvalue : Written PlainInValue PlainAtValue value v) (t : Text) :
    Text.lines (k ++ '=' :: (v ++ '\n' :: t)) = (k ++ '=' :: v) :: Text.lines t := by
  have hline := cut_line hkey hvalue
  have hreturn : Text.dropReturn (k ++ '=' :: v) = k ++ '=' :: v := by
    rw [Text.dropReturn, if_neg fun hlast => hline.not_mem (by decide) (List.mem_of_getLast? hlast)]
  have hassoc : k ++ '=' :: (v ++ '\n' :: t) = (k ++ '=' :: v) ++ '\n' :: t := by simp
  rw [hassoc, Text.lines_append_cons (hline.not_mem (by decide)), hreturn]

/-- Written entries are read back. The induction is on the entries, and the number of the first line, which
only an error would show, varies with them. -/
theorem mapM_parseEntry_written {entries : List (Text × Text)} {t : Text} (h : WrittenEntries entries t)
    (start : Nat) :
    (logicalLines (((Text.lines t).zipIdx start).map fun (line, index) => (index + 1, line))).mapM
      parseEntry = .ok entries := by
  induction h generalizing start with
  | nil =>
      have hlines : Text.lines [] = [] := rfl
      rw [hlines, List.zipIdx_nil, List.map_nil, logicalLines]
      rfl
  | cons hkey hvalue hrest ih =>
      rw [lines_entry hkey hvalue, List.zipIdx_cons, List.map_cons, logicalLines_cons_of_whole,
        trimStart_line hkey, List.mapM_cons, parseEntry_line _ hkey hvalue, ih]
      · rfl
      · rw [trimStart_line hkey, isIdle_line hkey]
      · rw [trimStart_line hkey, continues_eq_dangling, (cut_line hkey hvalue).not_dangling]

end Entries

/-- Every character has units, so a text can be written whatever may stand for itself. -/
theorem exists_written (plain first : Char → Prop) (s : Text) : ∃ t, Written plain first s t := by
  induction s generalizing first with
  | nil => exact ⟨[], .nil⟩
  | cons c s ih =>
      obtain ⟨t, ht⟩ := ih plain
      obtain ⟨form, hform⟩ := exists_spelled fun unit hunit => Utf16.units_lt (c := c) hunit
      exact ⟨form ++ t, .cons (.units hform) ht⟩

theorem exists_writtenEntries (entries : List (Text × Text)) : ∃ t, WrittenEntries entries t := by
  induction entries with
  | nil => exact ⟨[], .nil⟩
  | cons entry entries ih =>
      obtain ⟨k, hkey⟩ := exists_written PlainInKey PlainAtKey entry.1
      obtain ⟨v, hvalue⟩ := exists_written PlainInValue PlainAtValue entry.2
      obtain ⟨t, ht⟩ := ih
      exact ⟨_, .cons hkey hvalue ht⟩

/-- Any entries can be written, and however they are written they are read back, in order. -/
theorem parse_written (entries : List (Text × Text)) :
    (∃ t, WrittenEntries entries t) ∧ ∀ t, WrittenEntries entries t → parse t = .ok entries :=
  ⟨exists_writtenEntries entries, fun _ h => mapM_parseEntry_written h 0⟩

/-- The surrogates of a pair are spelled in either case; the last entry is empty on both sides. -/
example :
    parse "\\u0061\\:b\\==\\ x\\uD83D\\ude00\n\\#\\uD83D\\uDE00=:y\\t\n=\n".toList =
      .ok [("a:b=".toList, " x😀".toList), ("#😀".toList, ":y\t".toList), ([], [])] := by
  cbv

end LayeredConfig.Properties
