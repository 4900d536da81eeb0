import LayeredConfig.Proofs.Outcome
import LayeredConfig.Proofs.Properties.Line
import LayeredConfig.Proofs.Text.Lines
import LayeredConfig.Properties.Parser

/-! What entries cost. Reading only passes characters over, and an escape puts one character in the place of
two or more. So every character of an entry is paid for by a character of the text it was read from, and a
backslash by two, since it has been escaped itself. Equals signs, which may end a key, and line feeds,
which end lines, pay for nothing. -/

namespace LayeredConfig.Properties

/-- The number of characters that can pay for others. -/
def price (t : Text) : Nat := t.countP (· != '=')

/-- What an unescaped text has cost. -/
def worth (s : Text) : Nat := price s + s.count '\\'

/-- All characters of entries. -/
def letters (entries : List (Text × Text)) : Text := entries.flatMap fun entry => entry.1 ++ entry.2

section Escapes

variable {s t : Text}

theorem price_append (s t : Text) : price (s ++ t) = price s + price t := List.countP_append

theorem worth_append (s t : Text) : worth (s ++ t) = worth s + worth t := by
  unfold worth
  rw [price_append, List.count_append]
  omega

theorem price_cons (c : Char) (t : Text) : price (c :: t) = price [c] + price t := price_append [c] t

theorem worth_cons (c : Char) (s : Text) : worth (c :: s) = worth [c] + worth s := worth_append [c] s

theorem price_le_of_sublist (h : s.Sublist t) : price s ≤ price t := h.countP_le

theorem worth_le (s : Text) : worth s ≤ 2 * s.length := by
  have hprice : price s ≤ s.length := List.countP_le_length
  have hcount : s.count '\\' ≤ s.length := List.count_le_length
  unfold worth
  omega

theorem worth_literal {c : Char} (h : c ≠ '\\') : worth [c] = price [c] := by
  rw [worth, List.count_singleton, if_neg (by simpa using h), Nat.add_zero]

/-- The backslash of an escape pays for what the other character does not. -/
theorem worth_escaped (c : Char) : worth [escaped c] ≤ 1 + price [c] := by
  unfold escaped
  split
  · decide
  · decide
  · decide
  · decide
  · have hcount : [c].count '\\' ≤ 1 := List.count_le_length
    unfold worth
    omega

theorem length_of_decode {units : List Nat} (h : Utf16.decode units = .ok s) :
    s.length ≤ units.length := by
  fun_induction Utf16.decode units generalizing s with
  | case1 =>
      cases h
      exact Nat.le_refl _
  | case2 high hhigh low rest hlow ih =>
      obtain ⟨after, hafter, rfl⟩ := ok_of_map_eq_ok h
      exact Nat.succ_le_succ (Nat.le_succ_of_le (ih hafter))
  | case3 | case4 | case5 => cases h
  | case6 unit rest hhigh hlow ih =>
      obtain ⟨after, hafter, rfl⟩ := ok_of_map_eq_ok h
      exact Nat.succ_le_succ (ih hafter)

theorem worth_of_decodeUnits {units : List Nat} (h : decodeUnits units = .ok s) :
    worth s ≤ 2 * units.length := by
  have hlength := length_of_decode (ok_of_mapError_eq_ok h)
  have hworth := worth_le s
  omega

/-- Each unit that waits has been paid for by its backslash and its `u`; that buys any character. -/
theorem worth_of_unescapeAfter {units : List Nat} (h : unescapeAfter units t = .ok s) :
    worth s ≤ 2 * units.length + price t := by
  have hbackslash : price ['\\'] = 1 := rfl
  fun_induction unescapeAfter units t generalizing s with
  | case1 units => exact worth_of_decodeUnits h
  | case2 units a b c d t unit hunit ih =>
      have hread := ih h
      have hu : price ['u'] = 1 := rfl
      have hdigits : price t ≤ price (a :: b :: c :: d :: t) :=
        price_le_of_sublist (List.sublist_append_right [a, b, c, d] t)
      rw [List.length_append, List.length_singleton] at hread
      rw [price_cons, price_cons 'u']
      omega
  | case3 | case4 => cases h
  | case5 units => exact Nat.le_add_right_of_le (worth_of_decodeUnits h)
  | case6 units c t hdigits hu ih =>
      obtain ⟨before, hbefore, hrest⟩ := ok_of_bind_eq_ok h
      obtain ⟨after, hafter, heq⟩ := ok_of_bind_eq_ok hrest
      cases heq
      have hdecoded := worth_of_decodeUnits hbefore
      have hread := ih hafter
      have hescaped := worth_escaped c
      rw [worth_append, worth_cons, price_cons, price_cons c]
      rw [List.length_nil] at hread
      omega
  | case7 units c t hunit hu hlast hescape ih =>
      obtain ⟨before, hbefore, hrest⟩ := ok_of_bind_eq_ok h
      obtain ⟨after, hafter, heq⟩ := ok_of_bind_eq_ok hrest
      cases heq
      have hliteral : c ≠ '\\' := ne_backslash hlast hescape
      have hdecoded := worth_of_decodeUnits hbefore
      have hread := ih hafter
      rw [worth_append, worth_cons, worth_literal hliteral, price_cons c t]
      rw [List.length_nil] at hread
      omega

theorem worth_of_unescape (h : unescape t = .ok s) : worth s ≤ price t := by
  have hread := worth_of_unescapeAfter h
  rwa [List.length_nil, Nat.mul_zero, Nat.zero_add] at hread

end Escapes

section Entries

variable {t : Text} {entry : Text × Text} {entries : List (Text × Text)}

theorem splitKey_append (t : Text) : (splitKey t).1 ++ (splitKey t).2 = t := by
  fun_induction splitKey t with
  | case1 => rfl
  | case2 c t key rest hsplit ih =>
      rw [hsplit] at ih
      exact congrArg (fun t => '\\' :: c :: t) ih
  | case3 => rfl
  | case4 c t hescape hkey key rest hsplit ih =>
      rw [hsplit] at ih
      exact congrArg (c :: ·) ih

theorem valuePart_sublist (t : Text) : (valuePart t).Sublist t := by
  refine List.Sublist.trans ?_ (trimStart_sublist t)
  unfold valuePart
  split
  · exact List.nil_sublist _
  · rename_i c rest heq
    rw [heq]
    refine (trimStart_sublist _).trans ?_
    split
    · exact List.sublist_cons_self c rest
    · exact .refl _

/-- The key and the value of a line hold nothing but its characters, in order. -/
theorem splitEntry_sublist (line : Text) :
    ((splitEntry line).1 ++ (splitEntry line).2).Sublist line := by
  have hkey := splitKey_append line
  unfold splitEntry
  generalize splitKey line = parts at hkey
  subst hkey
  exact .append (.refl _) (valuePart_sublist _)

theorem worth_of_parseEntry {line : LogicalLine} (h : parseEntry line = .ok entry) :
    worth (entry.1 ++ entry.2) ≤ price line.text := by
  obtain ⟨key, hkey, hrest⟩ := ok_of_bind_eq_ok (ok_of_mapError_eq_ok h)
  obtain ⟨value, hvalue, heq⟩ := ok_of_bind_eq_ok hrest
  cases heq
  calc worth (key ++ value) = worth key + worth value := worth_append key value
    _ ≤ price (splitEntry line.text).1 + price (splitEntry line.text).2 :=
      Nat.add_le_add (worth_of_unescape hkey) (worth_of_unescape hvalue)
    _ = price ((splitEntry line.text).1 ++ (splitEntry line.text).2) := (price_append ..).symm
    _ ≤ price line.text := price_le_of_sublist (splitEntry_sublist line.text)

theorem worth_of_mapM_parseEntry {lines : List LogicalLine} (h : lines.mapM parseEntry = .ok entries) :
    worth (letters entries) ≤ price (lines.flatMap LogicalLine.text) := by
  induction lines generalizing entries with
  | nil =>
      cases h
      exact Nat.le_refl _
  | cons line lines ih =>
      rw [List.mapM_cons] at h
      obtain ⟨entry, hentry, hrest⟩ := ok_of_bind_eq_ok h
      obtain ⟨more, hmore, heq⟩ := ok_of_bind_eq_ok hrest
      cases heq
      rw [letters, List.flatMap_cons, List.flatMap_cons, worth_append, price_append]
      exact Nat.add_le_add (worth_of_parseEntry hentry) (ih hmore)

theorem numbered_texts (lines : List Text) : (numbered lines).flatMap Prod.snd = lines.flatten := by
  rw [numbered, List.flatMap_map, List.flatMap_def]
  exact congrArg List.flatten (List.zipIdx_map_fst 0 lines)

/-- The entries that are read from a text are worth no more than it pays. -/
theorem worth_of_parse (h : parse t = .ok entries) :
    worth (letters entries) ≤ price (t.filter (· != '\n')) := by
  refine Nat.le_trans (worth_of_mapM_parseEntry h) (price_le_of_sublist ?_)
  refine (logicalLines_sublist _).trans ?_
  rw [numbered_texts]
  exact Text.flatten_lines_sublist t

end Entries

end LayeredConfig.Properties
