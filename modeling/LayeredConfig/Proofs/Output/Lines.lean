import LayeredConfig.CommandLine
import LayeredConfig.Proofs.Properties.Price
import LayeredConfig.Proofs.Properties.Written
import Mathlib.Data.List.Basic
import Mathlib.Data.List.TakeWhile

/-! Printed lines, read again. Nothing is escaped when entries are printed as lines `key=value`, so not all
of them are read back as they were. A backslash or a line feed in an entry cannot be paid for by the lines
that are printed, and a text without backslashes is read line by line; what is left is to look at one line.
So the entries are read back exactly when each of them survives on its own line. -/

namespace LayeredConfig.Properties

/-- An entry that is read back from the line `key=value` as it was. -/
structure Unaltered (entry : Text × Text) : Prop where
  unescaped : '\\' ∉ entry.1 ++ entry.2
  oneLine : '\n' ∉ entry.1 ++ entry.2
  /-- Nothing ends the key before the equals sign. -/
  whole : ∀ c ∈ entry.1, isSeparator c = false ∧ isBlank c = false
  /-- The line is no comment. -/
  unmarked : ∀ c ∈ entry.1.head?, c ≠ '#' ∧ c ≠ '!'
  /-- Nothing of the value is passed over with the equals sign. -/
  flush : ∀ c ∈ entry.2.head?, isBlank c = false
  /-- Nothing of the value is taken for the end of the line. -/
  ended : entry.2.getLast? ≠ some '\r'

/-! ### Texts without backslashes -/

/-- What a line holds that is no part of another one. -/
def readLine (line : Text) : Option (Text × Text) :=
  if isIdle (trimStart line) then none else some (splitEntry (trimStart line))

section Lines

variable {t : Text}

theorem continues_of_unescaped (h : '\\' ∉ t) : continues t = false := by
  induction t with
  | nil => rfl
  | cons c t ih =>
      rw [List.mem_cons, not_or] at h
      rw [continues_cons_of_ne (Ne.symm h.1), ih h.2]

theorem unescape_of_unescaped (h : '\\' ∉ t) : unescape t = .ok t := by
  have hreads : Reads t t := by
    induction t with
    | nil => exact reads_nil
    | cons c t ih =>
        rw [List.mem_cons, not_or] at h
        exact (ih h.2).literal (Ne.symm h.1)
  exact hreads []

theorem parseEntry_of_unescaped {line : LogicalLine} (h : '\\' ∉ line.text) :
    parseEntry line = .ok (splitEntry line.text) := by
  have hparts : '\\' ∉ (splitEntry line.text).1 ++ (splitEntry line.text).2 := fun hmem =>
    h ((splitEntry_sublist line.text).subset hmem)
  rw [List.mem_append, not_or] at hparts
  rw [parseEntry]
  dsimp only
  rw [unescape_of_unescaped hparts.1, unescape_of_unescaped hparts.2]
  rfl

theorem mapM_parseEntry_of_unescaped {lines : List (Nat × Text)} (h : ∀ line ∈ lines, '\\' ∉ line.2) :
    (logicalLines lines).mapM parseEntry = .ok (lines.filterMap fun line => readLine line.2) := by
  induction lines with
  | nil =>
      rw [logicalLines]
      rfl
  | cons line lines ih =>
      obtain ⟨number, line⟩ := line
      obtain ⟨hline, hlines⟩ := List.forall_mem_cons.1 h
      have hstart : '\\' ∉ trimStart line := fun hmem => hline ((trimStart_sublist line).subset hmem)
      rw [List.filterMap_cons, readLine]
      cases hidle : isIdle (trimStart line) with
      | true =>
          rw [logicalLines]
          dsimp only
          rw [if_pos hidle, ih hlines]
          rfl
      | false =>
          rw [logicalLines_cons_of_whole hidle (continues_of_unescaped hstart), List.mapM_cons,
            parseEntry_of_unescaped hstart, ih hlines]
          rfl

/-- A text without backslashes is read line by line. -/
theorem parse_of_unescaped (h : '\\' ∉ t) : parse t = .ok ((Text.lines t).filterMap readLine) := by
  have hline : ∀ line ∈ numbered (Text.lines t), '\\' ∉ line.2 := by
    intro line hmem hescape
    have htexts : '\\' ∈ (numbered (Text.lines t)).flatMap Prod.snd :=
      List.mem_flatMap.2 ⟨line, hmem, hescape⟩
    rw [numbered_texts] at htexts
    exact h (List.mem_filter.1 ((Text.flatten_lines_sublist t).subset htexts)).1
  have hlines : (numbered (Text.lines t)).filterMap (fun line => readLine line.2) =
      (Text.lines t).filterMap readLine := by
    rw [numbered, List.filterMap_map, ← List.zipIdx_map_fst 0 (Text.lines t), List.filterMap_map,
      List.zipIdx_map_fst]
    rfl
  rw [parse, mapM_parseEntry_of_unescaped hline, hlines]

end Lines

/-! ### One printed line -/

section Line

variable {key value : Text}

theorem splitKey_cons {c : Char} (h : c ≠ '\\') (t : Text) :
    splitKey (c :: t) =
      if isSeparator c || isBlank c then ([], c :: t) else (c :: (splitKey t).1, (splitKey t).2) := by
  rw [splitKey]
  exact fun _ _ heq => absurd heq h

theorem whole_of_splitKey {t : Text} (h : '\\' ∉ t) :
    ∀ c ∈ (splitKey t).1, isSeparator c = false ∧ isBlank c = false := by
  induction t with
  | nil => simp [splitKey]
  | cons c t ih =>
      rw [List.mem_cons, not_or] at h
      rw [splitKey_cons (Ne.symm h.1)]
      split
      · simp
      · rename_i hinside
        exact List.forall_mem_cons.2 ⟨by simpa using hinside, ih h.2⟩

theorem whole_of_readLine {line : Text} (hescape : '\\' ∉ line) (h : readLine line = some (key, value)) :
    ∀ c ∈ key, isSeparator c = false ∧ isBlank c = false := by
  unfold readLine at h
  split at h
  · cases h
  · have hsplit : (splitKey (trimStart line)).1 = key := congrArg Prod.fst (Option.some.inj h)
    rw [← hsplit]
    exact whole_of_splitKey fun hmem => hescape ((trimStart_sublist line).subset hmem)

theorem splitKey_of_whole (hescape : '\\' ∉ key)
    (hwhole : ∀ c ∈ key, isSeparator c = false ∧ isBlank c = false) (rest : Text) :
    splitKey (key ++ '=' :: rest) = (key, '=' :: rest) := by
  induction key with
  | nil => rfl
  | cons c key ih =>
      rw [List.mem_cons, not_or] at hescape
      obtain ⟨⟨hseparator, hblank⟩, hkey⟩ := List.forall_mem_cons.1 hwhole
      rw [List.cons_append, splitKey_cons (Ne.symm hescape.1), ih hescape.2 hkey, hseparator, hblank]
      rfl

theorem readLine_of_whole (hescape : '\\' ∉ key)
    (hwhole : ∀ c ∈ key, isSeparator c = false ∧ isBlank c = false) (rest : Text) :
    readLine (key ++ '=' :: rest) =
      if isIdle (key ++ ['=']) then none else some (key, trimStart rest) := by
  have hstart : trimStart (key ++ '=' :: rest) = key ++ '=' :: rest := by
    cases key with
    | nil => rfl
    | cons c key => exact trimStart_cons_of_not_blank (hwhole c List.mem_cons_self).2 _
  have hidle : isIdle (key ++ '=' :: rest) = isIdle (key ++ ['=']) := by
    cases key <;> rfl
  have hvalue : valuePart ('=' :: rest) = trimStart rest := by
    rw [valuePart, trimStart_cons_of_not_blank rfl]
    rfl
  rw [readLine, hstart, hidle, splitEntry, splitKey_of_whole hescape hwhole]
  dsimp only
  rw [hvalue]

theorem isIdle_key_iff : isIdle (key ++ ['=']) = false ↔ ∀ c ∈ key.head?, c ≠ '#' ∧ c ≠ '!' := by
  cases key with
  | nil => simp [isIdle]
  | cons c key => simp [isIdle]

theorem dropReturn_eq_self_iff : Text.dropReturn value = value ↔ value.getLast? ≠ some '\r' := by
  unfold Text.dropReturn
  split
  · rename_i hlast
    have hne : value ≠ [] := by
      rintro rfl
      cases hlast
    refine iff_of_false (fun heq => ?_) fun hnot => hnot hlast
    have hlength := congrArg List.length heq
    have hpos := List.length_pos_iff.2 hne
    rw [List.length_dropLast] at hlength
    omega
  · rename_i hlast
    exact iff_of_true rfl hlast

/-- A value comes back when nothing is lost on either side. -/
theorem trimStart_dropReturn_eq_iff :
    trimStart (Text.dropReturn value) = value ↔
      (∀ c ∈ value.head?, isBlank c = false) ∧ value.getLast? ≠ some '\r' := by
  rw [← trimStart_eq_self_iff, ← dropReturn_eq_self_iff]
  constructor
  · intro h
    have hlength := (trimStart_sublist (Text.dropReturn value)).length_le
    rw [h] at hlength
    have hreturn : Text.dropReturn value = value := (Text.dropReturn_sublist value).eq_of_length_le hlength
    rw [hreturn] at h
    exact ⟨h, hreturn⟩
  · rintro ⟨hstart, hreturn⟩
    rw [hreturn, hstart]

/-- An entry without backslashes and line feeds comes back from its line exactly when it is unaltered. -/
theorem readLine_eq_some_iff (hescape : '\\' ∉ key ++ value) (hline : '\n' ∉ key ++ value) :
    readLine (key ++ '=' :: Text.dropReturn value) = some (key, value) ↔ Unaltered (key, value) := by
  have hkey : '\\' ∉ key := fun hmem => hescape (List.mem_append_left value hmem)
  have hvalue : '\\' ∉ value := fun hmem => hescape (List.mem_append_right key hmem)
  constructor
  · intro h
    have hprinted : '\\' ∉ key ++ '=' :: Text.dropReturn value := by
      have hreturn : '\\' ∉ Text.dropReturn value := fun hmem =>
        hvalue ((Text.dropReturn_sublist value).subset hmem)
      simp [hkey, hreturn]
    have hwhole := whole_of_readLine hprinted h
    rw [readLine_of_whole hkey hwhole] at h
    split at h
    · cases h
    · rename_i hidle
      have hback : trimStart (Text.dropReturn value) = value := congrArg Prod.snd (Option.some.inj h)
      obtain ⟨hflush, hended⟩ := trimStart_dropReturn_eq_iff.1 hback
      exact ⟨hescape, hline, hwhole, isIdle_key_iff.1 (Bool.eq_false_iff.2 hidle), hflush, hended⟩
  · intro h
    rw [readLine_of_whole hkey h.whole, isIdle_key_iff.2 h.unmarked, if_neg Bool.false_ne_true,
      trimStart_dropReturn_eq_iff.2 ⟨h.flush, h.ended⟩]

end Line

/-! ### All printed lines -/

section Printed

variable {entries : List (Text × Text)}

theorem letters_cons (entry : Text × Text) (entries : List (Text × Text)) :
    letters (entry :: entries) = entry.1 ++ entry.2 ++ letters entries :=
  List.flatMap_cons

/-- What is printed besides the entries has no price. -/
theorem price_printed (entries : List (Text × Text)) :
    price ((entries.flatMap OutputFormat.line).filter (· != '\n')) =
      price ((letters entries).filter (· != '\n')) := by
  induction entries with
  | nil => rfl
  | cons entry entries ih =>
      have hequals : ∀ t, price ('=' :: t) = price t := fun t => List.countP_cons_of_neg (by decide)
      have hline : price ((OutputFormat.line entry).filter (· != '\n')) =
          price ((entry.1 ++ entry.2).filter (· != '\n')) := by
        simp [OutputFormat.line, price_append, hequals]
      rw [List.flatMap_cons, letters_cons, List.filter_append, List.filter_append, price_append, hline, ih,
        ← price_append]

/-- Entries that are read back from printed lines hold neither backslashes nor line feeds. -/
theorem not_mem_letters_of_parse_printed (h : parse (entries.flatMap OutputFormat.line) = .ok entries) :
    '\\' ∉ letters entries ∧ '\n' ∉ letters entries := by
  have hworth := worth_of_parse h
  rw [price_printed, worth] at hworth
  have hparts : price (letters entries) =
      price ((letters entries).filter (· != '\n')) +
        price ((letters entries).filter fun c => !(c != '\n')) :=
    List.countP_eq_countP_filter_add ..
  refine ⟨List.count_eq_zero.1 (by omega), fun hmem => ?_⟩
  have hnone : price ((letters entries).filter fun c => !(c != '\n')) = 0 := by omega
  exact List.countP_eq_zero.1 hnone '\n' (List.mem_filter.2 ⟨hmem, rfl⟩) rfl

theorem lines_printed (h : '\n' ∉ letters entries) :
    Text.lines (entries.flatMap OutputFormat.line) =
      entries.map fun entry => entry.1 ++ '=' :: Text.dropReturn entry.2 := by
  induction entries with
  | nil => rfl
  | cons entry entries ih =>
      rw [letters_cons, List.mem_append, List.mem_append, not_or, not_or] at h
      have hline : '\n' ∉ entry.1 ++ '=' :: entry.2 := by simp [h.1]
      have hassoc : (entry :: entries).flatMap OutputFormat.line =
          (entry.1 ++ '=' :: entry.2) ++ '\n' :: entries.flatMap OutputFormat.line := by
        simp [OutputFormat.line]
      rw [hassoc, Text.lines_append_cons hline, ih h.2, Text.dropReturn_append_cons (by decide)]
      rfl

theorem not_mem_printed (h : '\\' ∉ letters entries) : '\\' ∉ entries.flatMap OutputFormat.line := by
  intro hmem
  obtain ⟨entry, hentry, hline⟩ := List.mem_flatMap.1 hmem
  refine h (List.mem_flatMap.2 ⟨entry, hentry, ?_⟩)
  simpa [OutputFormat.line] using hline

/-- Entries without backslashes and line feeds are read back when each of them comes back from its line. -/
theorem parse_printed_of_unescaped (hescape : '\\' ∉ letters entries) (hline : '\n' ∉ letters entries) :
    parse (entries.flatMap OutputFormat.line) = .ok entries ↔ ∀ entry ∈ entries, Unaltered entry := by
  have hmem : ∀ (c : Char) (entry : Text × Text), c ∉ letters entries → entry ∈ entries →
      c ∉ entry.1 ++ entry.2 := fun c entry hc hentry hin =>
    hc (List.mem_flatMap.2 ⟨entry, hentry, hin⟩)
  rw [parse_of_unescaped (not_mem_printed hescape), lines_printed hline, List.filterMap_map, Except.ok.injEq]
  have hback := List.filterMap_eq_map_iff_forall_eq_some (l := entries) (g := id)
    (f := readLine ∘ fun entry => entry.1 ++ '=' :: Text.dropReturn entry.2)
  rw [List.map_id] at hback
  rw [hback]
  exact forall₂_congr fun entry hentry =>
    readLine_eq_some_iff (hmem _ _ hescape hentry) (hmem _ _ hline hentry)

end Printed

/-- What the program prints of a resolved map as lines is read back as the entries of the map exactly when
each of them is unaltered by its line. -/
theorem parse_printed_eq_iff (settings : CommandLine.Settings) (map : OrderedMap Text) :
    parse ({ settings with format := some .properties }.ending (.ok map)).output = .ok map.entries ↔
      ∀ entry ∈ map.entries, Unaltered entry := by
  have houtput : ({ settings with format := some .properties }.ending (.ok map)).output =
      map.entries.flatMap OutputFormat.line := rfl
  rw [houtput]
  constructor
  · intro h
    obtain ⟨hescape, hline⟩ := not_mem_letters_of_parse_printed h
    exact (parse_printed_of_unescaped hescape hline).1 h
  · intro h
    have hfree : '\\' ∉ letters map.entries ∧ '\n' ∉ letters map.entries := by
      simp only [letters, List.mem_flatMap, not_exists, not_and]
      exact ⟨fun entry hentry => (h entry hentry).unescaped, fun entry hentry => (h entry hentry).oneLine⟩
    exact (parse_printed_of_unescaped hfree.1 hfree.2).2 h

/-- A value of two lines is printed as two lines, and the second is read as an entry of its own. -/
theorem parse_printed_two_lines :
    ¬ ∀ (settings : CommandLine.Settings) (map : OrderedMap Text),
      parse ({ settings with format := some .properties }.ending (.ok map)).output = .ok map.entries := by
  intro h
  have hread : parse "a=b\nc\n".toList = .ok [("a".toList, "b".toList), ("c".toList, [])] := by decide +kernel
  have hprinted := h {} (.ofList [("a".toList, "b\nc".toList)])
  cases hread.symm.trans hprinted

end LayeredConfig.Properties
