import LayeredConfig.CommandLine
import LayeredConfig.Proofs.Text.Utf16

/-! The printed object, read back. The reader takes any object whose values are texts: white space may stand
between its parts, and a text is a row of 16-bit units, each of them spelled by an escape or standing
there as part of a character. Every escape that is printed spells the units of its character, so texts
are read as they were, and the members come in the order in which they were printed. -/

namespace LayeredConfig.Output.Json

/-! ### A reader -/

def isSpace (c : Char) : Bool := c == ' ' || c == '\t' || c == '\n' || c == '\r'

/-- What follows a character that only white space may precede. -/
def expect (c : Char) (t : Text) : Option Text :=
  match t.dropWhile isSpace with
  | [] => none
  | d :: rest => if d = c then some rest else none

/-- The characters that may stand in a text as they are. -/
def isPlain (c : Char) : Bool := 0x20 ≤ c.toNat && c != '"' && c != '\\'

/-- The character that a letter after a backslash names. -/
def named? : Char → Option Char
  | '"' => some '"'
  | '\\' => some '\\'
  | '/' => some '/'
  | 'b' => some '\x08'
  | 'f' => some '\x0c'
  | 'n' => some '\n'
  | 'r' => some '\r'
  | 't' => some '\t'
  | _ => none

def prepend (units : List Nat) (read : List Nat × Text) : List Nat × Text := (units ++ read.1, read.2)

/-- The units of a text up to its closing quote, and what follows the quote. -/
def readUnits : Text → Option (List Nat × Text)
  | [] => none
  | '"' :: rest => some ([], rest)
  | '\\' :: 'u' :: a :: b :: c :: d :: t =>
    (Decimal.readDigits? 16 [a, b, c, d]).bind fun unit => (readUnits t).map (prepend [unit])
  | '\\' :: letter :: t => (named? letter).bind fun c => (readUnits t).map (prepend (Utf16.units c))
  | c :: t => if isPlain c then (readUnits t).map (prepend (Utf16.units c)) else none

/-- A text in quotes, and what follows it. Unpaired surrogates are refused. -/
def readString (t : Text) : Option (Text × Text) :=
  ((expect '"' t).bind readUnits).bind fun found =>
    (Utf16.decode found.1).toOption.map fun s => (s, found.2)

def readMember (t : Text) : Option ((Text × Text) × Text) :=
  (readString t).bind fun key =>
    ((expect ':' key.2).bind readString).map fun value => ((key.1, value.1), value.2)

theorem length_expect {c : Char} {t rest : Text} (h : expect c t = some rest) :
    rest.length < t.length := by
  have hle := (List.dropWhile_sublist isSpace (l := t)).length_le
  unfold expect at h
  split at h
  · cases h
  · rename_i d after hdrop
    rw [hdrop] at hle
    split at h
    · cases h
      exact hle
    · cases h

theorem length_of_prepend {units : List Nat} {read : Option (List Nat × Text)} {found : List Nat × Text}
    {n : Nat} (h : read.map (prepend units) = some found)
    (hread : ∀ more, read = some more → more.2.length < n) : found.2.length < n := by
  obtain ⟨more, hmore, rfl⟩ := Option.map_eq_some_iff.1 h
  exact hread more hmore

theorem length_readUnits {t : Text} {found : List Nat × Text} (h : readUnits t = some found) :
    found.2.length < t.length := by
  fun_induction readUnits t generalizing found with
  | case1 => cases h
  | case2 => cases h; simp
  | case3 a b c d t ih =>
      obtain ⟨unit, -, hrest⟩ := Option.bind_eq_some_iff.1 h
      have hlength := length_of_prepend hrest fun _ => ih
      simp only [List.length_cons]
      omega
  | case4 letter t _ ih =>
      obtain ⟨c, -, hrest⟩ := Option.bind_eq_some_iff.1 h
      have hlength := length_of_prepend hrest fun _ => ih
      simp only [List.length_cons]
      omega
  | case5 c t _ _ _ _ ih => exact Nat.lt_succ_of_lt (length_of_prepend h fun _ => ih)
  | case6 => cases h

theorem length_readString {t : Text} {found : Text × Text} (h : readString t = some found) :
    found.2.length < t.length := by
  obtain ⟨read, hread, hdecode⟩ := Option.bind_eq_some_iff.1 h
  obtain ⟨after, hquote, hunits⟩ := Option.bind_eq_some_iff.1 hread
  obtain ⟨s, -, rfl⟩ := Option.map_eq_some_iff.1 hdecode
  exact Nat.lt_trans (length_readUnits hunits) (length_expect hquote)

theorem length_readMember {t : Text} {found : (Text × Text) × Text} (h : readMember t = some found) :
    found.2.length < t.length := by
  obtain ⟨key, hkey, hrest⟩ := Option.bind_eq_some_iff.1 h
  obtain ⟨value, hread, rfl⟩ := Option.map_eq_some_iff.1 hrest
  obtain ⟨after, hcolon, hvalue⟩ := Option.bind_eq_some_iff.1 hread
  exact Nat.lt_trans (length_readString hvalue)
    (Nat.lt_trans (length_expect hcolon) (length_readString hkey))

/-- The members up to the closing brace, at least one, and what follows the brace. -/
def readMembers (t : Text) : Option (List (Text × Text) × Text) :=
  match _member : readMember t with
  | none => none
  | some (entry, after) =>
    match _comma : expect ',' after with
    | some next => (readMembers next).map fun (entries, rest) => (entry :: entries, rest)
    | none => (expect '}' after).map fun rest => ([entry], rest)
termination_by t.length
decreasing_by exact Nat.lt_trans (length_expect _comma) (length_readMember _member)

/-- The members of an object in order, and what follows it. -/
def readObject (t : Text) : Option (List (Text × Text) × Text) :=
  match expect '{' t with
  | none => none
  | some inside =>
    match expect '}' inside with
    | some rest => some ([], rest)
    | none => readMembers inside

/-- White space and spelled characters may stand where they are never printed; the order of members is kept. -/
example :
    readObject "\x7b \"b\\u0041\" :\t\"\\/\\uD83d\\uDE00\"\n, \"a\":\"\" \x7d x".toList =
      some ([("bA".toList, "/😀".toList), ("a".toList, [])], " x".toList) := by
  cbv

/-! ### Texts -/

section Texts

variable {c : Char} {t rest : Text}

theorem expect_self (hc : isSpace c = false) (t : Text) : expect c (c :: t) = some t := by
  rw [expect, List.dropWhile_cons_of_neg (by simp [hc])]
  exact if_pos rfl

theorem expect_of_ne {d : Char} (hd : isSpace d = false) (hne : d ≠ c) (t : Text) :
    expect c (d :: t) = none := by
  rw [expect, List.dropWhile_cons_of_neg (by simp [hd])]
  exact if_neg hne

theorem expect_space {d : Char} (hd : isSpace d = true) (t : Text) : expect c (d :: t) = expect c t := by
  rw [expect, expect, List.dropWhile_cons_of_pos hd]

theorem readUnits_named {letter : Char} (hletter : named? letter = some c) (t : Text) :
    readUnits ('\\' :: letter :: t) = (readUnits t).map (prepend (Utf16.units c)) := by
  have hu : letter ≠ 'u' := by
    rintro rfl
    cases hletter
  rw [readUnits, hletter, Option.bind_some]
  rintro _ _ _ _ _ rfl
  exact absurd rfl hu

theorem readUnits_plain (hc : isPlain c = true) (t : Text) :
    readUnits (c :: t) = (readUnits t).map (prepend (Utf16.units c)) := by
  have hspecial : c ≠ '"' ∧ c ≠ '\\' := by
    simp only [isPlain, Bool.and_eq_true, bne_iff_ne] at hc
    exact ⟨hc.1.2, hc.2⟩
  rw [readUnits, if_pos hc]
  · exact hspecial.1
  · exact fun _ _ _ _ _ heq _ => hspecial.2 heq
  · exact fun _ _ heq _ => hspecial.2 heq

theorem readDigits?_control {n : Nat} (h : n < 0x20) :
    Decimal.readDigits? 16 ['0', '0', Nat.digitChar (n / 16), Nat.digitChar (n % 16)] = some n := by
  have hall : ∀ n < 0x20,
      Decimal.readDigits? 16 ['0', '0', Nat.digitChar (n / 16), Nat.digitChar (n % 16)] = some n := by
    decide
  exact hall n h

theorem readUnits_escape (c : Char) (t : Text) :
    readUnits (escape c ++ t) = (readUnits t).map (prepend (Utf16.units c)) := by
  unfold escape
  split
  · rename_i h
    rcases h with rfl | rfl <;> exact readUnits_named rfl t
  split
  · subst c; exact readUnits_named rfl t
  split
  · subst c; exact readUnits_named rfl t
  split
  · subst c; exact readUnits_named rfl t
  split
  · subst c; exact readUnits_named rfl t
  split
  · subst c; exact readUnits_named rfl t
  split
  · rename_i hcontrol
    have hunits : Utf16.units c = [c.toNat] := Utf16.units_of_lt (by omega)
    have hdigits := readDigits?_control hcontrol
    rw [hunits]
    exact congrArg (·.bind fun unit => (readUnits t).map (prepend [unit])) hdigits
  · rename_i hspecial _ _ _ _ _ hcontrol
    rw [not_or] at hspecial
    exact readUnits_plain (by simp [isPlain, hspecial, Nat.le_of_not_lt hcontrol]) t

theorem readUnits_escaped (s rest : Text) :
    readUnits (s.flatMap escape ++ '"' :: rest) = some (Utf16.encode s, rest) := by
  induction s with
  | nil => rfl
  | cons c s ih =>
      rw [List.flatMap_cons, List.append_assoc, readUnits_escape, ih]
      rfl

theorem readString_string (s rest : Text) : readString (string s ++ rest) = some (s, rest) := by
  have hquoted : string s ++ rest = '"' :: (s.flatMap escape ++ '"' :: rest) := by simp [string]
  rw [readString, hquoted, expect_self rfl, Option.bind_some, readUnits_escaped, Option.bind_some,
    Utf16.decode_encode]
  rfl

theorem readString_space (hc : isSpace c = true) (t : Text) : readString (c :: t) = readString t := by
  rw [readString, readString, expect_space hc]

end Texts

/-! ### Members -/

section Members

variable {entries : List (Text × Text)}

theorem readMember_space {c : Char} (hc : isSpace c = true) (t : Text) :
    readMember (c :: t) = readMember t := by
  rw [readMember, readMember, readString_space hc]

theorem readMember_member (entry : Text × Text) (rest : Text) :
    readMember (member entry ++ rest) = some (entry, rest) := by
  have hmember : member entry ++ rest =
      ' ' :: ' ' :: (string entry.1 ++ ':' :: ' ' :: (string entry.2 ++ rest)) := by simp [member]
  rw [hmember, readMember_space rfl, readMember_space rfl, readMember, readString_string,
    Option.bind_some, expect_self rfl, Option.bind_some, readString_space rfl, readString_string]
  rfl

theorem readMembers_next {t after next : Text} {entry : Text × Text}
    (hmember : readMember t = some (entry, after)) (hcomma : expect ',' after = some next) :
    readMembers t = (readMembers next).map fun found => (entry :: found.1, found.2) := by
  rw [readMembers]
  split
  · rename_i hnone
    rw [hmember] at hnone
    cases hnone
  · rename_i hsome
    obtain ⟨rfl, rfl⟩ := Prod.mk.inj (Option.some.inj (hmember.symm.trans hsome))
    split
    · rename_i hnext
      obtain rfl := Option.some.inj (hcomma.symm.trans hnext)
      rfl
    · rename_i hnone
      rw [hcomma] at hnone
      cases hnone

theorem readMembers_last {t after : Text} {entry : Text × Text}
    (hmember : readMember t = some (entry, after)) (hcomma : expect ',' after = none) :
    readMembers t = (expect '}' after).map fun rest => ([entry], rest) := by
  rw [readMembers]
  split
  · rename_i hnone
    rw [hmember] at hnone
    cases hnone
  · rename_i hsome
    obtain ⟨rfl, rfl⟩ := Prod.mk.inj (Option.some.inj (hmember.symm.trans hsome))
    split
    · rename_i hnext
      rw [hcomma] at hnext
      cases hnext
    · rfl

/-- The members as they are printed, each on its line, with a comma after each but the last. -/
theorem readMembers_members (entry : Text × Text) (entries : List (Text × Text)) (rest : Text) :
    readMembers ('\n' :: ([',', '\n'].intercalate ((entry :: entries).map member) ++ '\n' :: '}' :: rest)) =
      some (entry :: entries, rest) := by
  have hmember : ∀ (entry : Text × Text) (after : Text),
      readMember ('\n' :: (member entry ++ after)) = some (entry, after) := fun entry after => by
    rw [readMember_space rfl, readMember_member]
  induction entries generalizing entry with
  | nil =>
      have hcomma : expect ',' ('\n' :: '}' :: rest) = none := by
        rw [expect_space rfl, expect_of_ne rfl (by decide)]
      rw [List.map_singleton, List.intercalate_singleton, readMembers_last (hmember _ _) hcomma,
        expect_space rfl, expect_self rfl]
      rfl
  | cons next entries ih =>
      have htail := ih next
      rw [List.map_cons] at htail
      rw [List.map_cons, List.map_cons, List.intercalate_cons_cons, List.append_assoc, List.append_assoc,
        List.cons_append, List.singleton_append, readMembers_next (hmember _ _) (expect_self rfl _), htail]
      rfl

theorem intercalate_members (separator : Text) (entry : Text × Text) (entries : List (Text × Text)) :
    ∃ more, separator.intercalate ((entry :: entries).map member) = ' ' :: ' ' :: '"' :: more := by
  cases entries with
  | nil => exact ⟨_, List.intercalate_singleton⟩
  | cons next entries =>
      rw [List.map_cons, List.map_cons, List.intercalate_cons_cons, List.append_assoc]
      exact ⟨_, rfl⟩

/-- A printed object is read as its members, whatever follows it. -/
theorem readObject_object (entries : List (Text × Text)) (rest : Text) :
    readObject (object entries ++ rest) = some (entries, rest) := by
  cases entries with
  | nil => rfl
  | cons entry entries =>
      have hobject : object (entry :: entries) ++ rest = '{' :: '\n' ::
          ([',', '\n'].intercalate ((entry :: entries).map member) ++ '\n' :: '}' :: rest) := by
        simp [object]
      have hmembers := readMembers_members entry entries rest
      obtain ⟨more, hmore⟩ := intercalate_members [',', '\n'] entry entries
      have hbrace : expect '}' ('\n' :: (' ' :: ' ' :: '"' :: more ++ '\n' :: '}' :: rest)) = none :=
        expect_of_ne (c := '}') (d := '"') rfl (by decide) (more ++ '\n' :: '}' :: rest)
      rw [hmore] at hobject hmembers
      rw [hobject, readObject, expect_self rfl]
      simp only [hbrace, hmembers]

end Members

/-- What the program prints of a resolved map as JSON is one object and a line feed. The object is read as
the entries of the map in the order of their last writes, whatever follows it. -/
theorem readObject_of_printed (settings : CommandLine.Settings) (map : OrderedMap Text) :
    ∃ object, { settings with format := some .json }.ending (.ok map) = .printed (object ++ ['\n']) ∧
      ∀ rest, readObject (object ++ rest) = some (map.entries, rest) :=
  ⟨object map.entries, rfl, readObject_object map.entries⟩

end LayeredConfig.Output.Json
