import LayeredConfig.Text.Lines

/-! Lines, one at a time. A text that starts with characters other than line feeds and then has one starts
with that line, and what follows the line feed is read by itself; so are two texts with a line feed between
them. Put together, the lines are the text without its line feeds, but for carriage returns at their ends. -/

namespace LayeredConfig.Text

theorem splitBy_ne_nil {α : Type} (p : α → Bool) (t : List α) : splitBy p t ≠ [] := by
  cases t with
  | nil => simp [splitBy]
  | cons x t =>
      rw [splitBy]
      split
      · simp
      · split <;> simp

theorem splitBy_append_cons {α : Type} {p : α → Bool} {part : List α} {x : α}
    (hpart : ∀ y ∈ part, p y = false) (hx : p x = true) (t : List α) :
    splitBy p (part ++ x :: t) = part :: splitBy p t := by
  induction part with
  | nil => rw [List.nil_append, splitBy, if_pos hx]
  | cons y part ih =>
      obtain ⟨hy, hrest⟩ := List.forall_mem_cons.1 hpart
      rw [List.cons_append, splitBy, if_neg (by simp [hy]), ih hrest]

theorem splitBy_append {α : Type} {p : α → Bool} {x : α} (hx : p x = true) (s t : List α) :
    splitBy p (s ++ x :: t) = splitBy p s ++ splitBy p t := by
  induction s with
  | nil => simp [splitBy, hx]
  | cons y s ih =>
      rw [List.cons_append, splitBy, splitBy, ih]
      cases hparts : splitBy p s with
      | nil => exact absurd hparts (splitBy_ne_nil p s)
      | cons part parts => split <;> rfl

theorem splitBy_of_forall {α : Type} {p : α → Bool} {t : List α} (h : ∀ x ∈ t, p x = false) :
    splitBy p t = [t] := by
  induction t with
  | nil => rfl
  | cons x t ih =>
      obtain ⟨hx, hrest⟩ := List.forall_mem_cons.1 h
      rw [splitBy, if_neg (by simp [hx]), ih hrest]

theorem length_splitBy {α : Type} (p : α → Bool) (t : List α) :
    (splitBy p t).length = t.countP p + 1 := by
  induction t with
  | nil => rfl
  | cons x t ih =>
      rw [splitBy, List.countP_cons]
      split
      · rw [List.length_cons, ih]
      · split
        · rename_i hparts
          exact absurd hparts (splitBy_ne_nil p t)
        · rename_i hparts
          rw [hparts] at ih
          exact ih

theorem splitOn_append_cons {line : Text} (h : '\n' ∉ line) (t : Text) :
    splitOn '\n' (line ++ '\n' :: t) = line :: splitOn '\n' t := by
  have hline : ∀ c ∈ line, (c == '\n') = false := fun c hc =>
    beq_eq_false_iff_ne.2 fun heq => h (heq ▸ hc)
  rw [splitOn, splitBy_append_cons hline rfl, splitOn]

theorem lines_append_cons {line : Text} (h : '\n' ∉ line) (t : Text) :
    lines (line ++ '\n' :: t) = dropReturn line :: lines t := by
  rw [lines, splitOn_append_cons h, linesOfParts]
  · rfl
  · exact splitBy_ne_nil _ t

theorem flatten_splitBy {α : Type} (p : α → Bool) (t : List α) :
    (splitBy p t).flatten = t.filter fun x => !p x := by
  induction t with
  | nil => rfl
  | cons x t ih =>
      rw [splitBy]
      cases hx : p x with
      | true => simp [hx, ih]
      | false =>
          rw [List.filter_cons_of_pos (by simp [hx]), ← ih, if_neg Bool.false_ne_true]
          split <;> rename_i hparts
          · exact absurd hparts (splitBy_ne_nil p t)
          · rw [hparts]
            rfl

theorem dropReturn_isPrefix (line : Text) : dropReturn line <+: line := by
  unfold dropReturn
  split
  · exact List.dropLast_prefix line
  · exact List.prefix_rfl

theorem dropReturn_sublist (line : Text) : (dropReturn line).Sublist line :=
  (dropReturn_isPrefix line).sublist

theorem dropReturn_append {t : Text} (h : t ≠ []) (s : Text) :
    dropReturn (s ++ t) = s ++ dropReturn t := by
  obtain ⟨d, rest, rfl⟩ := List.exists_cons_of_ne_nil h
  unfold dropReturn
  rw [List.getLast?_append, List.getLast?_cons, Option.some_or]
  split
  · exact List.dropLast_append_of_ne_nil (List.cons_ne_nil d rest)
  · rfl

theorem dropReturn_append_cons {c : Char} (h : c ≠ '\r') (before after : Text) :
    dropReturn (before ++ c :: after) = before ++ c :: dropReturn after := by
  cases after with
  | nil => simp [dropReturn, h]
  | cons d after =>
      rw [← List.singleton_append, ← List.append_assoc, dropReturn_append (List.cons_ne_nil d after),
        List.append_assoc, List.singleton_append]

theorem flatten_linesOfParts_sublist (parts : List Text) :
    (linesOfParts parts).flatten.Sublist parts.flatten := by
  fun_induction linesOfParts parts with
  | case1 => exact .refl _
  | case2 => exact .slnil
  | case3 last => exact .refl _
  | case4 part parts _ ih => exact (dropReturn_sublist part).append ih

/-- Lines hold nothing but characters of the text, in order, and none of its line feeds. -/
theorem flatten_lines_sublist (t : Text) : (lines t).flatten.Sublist (t.filter (· != '\n')) := by
  have hparts := flatten_linesOfParts_sublist (splitOn '\n' t)
  rwa [splitOn, flatten_splitBy] at hparts

/-! ### Texts one after another -/

/-- The lines of a text that a line feed follows. -/
def endedLines (t : Text) : List Text := (splitOn '\n' t).map dropReturn

section Ended

variable {s t : Text}

theorem length_endedLines (t : Text) : (endedLines t).length = t.count '\n' + 1 := by
  rw [endedLines, List.length_map, splitOn, length_splitBy]
  rfl

theorem linesOfParts_append (parts : List Text) {more : List Text} (h : more ≠ []) :
    linesOfParts (parts ++ more) = parts.map dropReturn ++ linesOfParts more := by
  induction parts with
  | nil => rfl
  | cons part parts ih =>
      rw [List.cons_append, linesOfParts, ih, List.map_cons, List.cons_append]
      exact List.append_ne_nil_of_right_ne_nil _ h

theorem lines_append_lineFeed (s t : Text) : lines (s ++ '\n' :: t) = endedLines s ++ lines t := by
  rw [lines, splitOn, splitBy_append rfl, linesOfParts_append _ (splitBy_ne_nil _ t)]
  rfl

theorem splitOn_of_not_mem (h : '\n' ∉ t) : splitOn '\n' t = [t] :=
  splitBy_of_forall fun _ hc => beq_eq_false_iff_ne.2 fun heq => h (heq ▸ hc)

theorem lines_of_not_mem (h : '\n' ∉ t) : lines t = if t = [] then [] else [t] := by
  rw [lines, splitOn_of_not_mem h, linesOfParts]

/-- A text is a single line, or ends in one after a line feed. -/
theorem exists_lastLine (t : Text) :
    '\n' ∉ t ∨ ∃ before last, t = before ++ '\n' :: last ∧ '\n' ∉ last := by
  by_cases h : '\n' ∈ t
  · obtain ⟨last, before, heq, hlast⟩ := List.eq_append_cons_of_mem (List.mem_reverse.2 h)
    refine .inr ⟨before.reverse, last.reverse, ?_, fun hmem => hlast (List.mem_reverse.1 hmem)⟩
    simpa using congrArg List.reverse heq
  · exact .inl h

/-- A line feed ends the lines of a text as they are, but for a carriage return; when the text has a line
feed at its end already, it adds an empty line. -/
theorem endedLines_eq_or (h : t.getLast? ≠ some '\r') :
    endedLines t = lines t ∨ endedLines t = lines t ++ [[]] := by
  have hone : ∀ last : Text, '\n' ∉ last → last.getLast? ≠ some '\r' →
      endedLines last = lines last ∨ endedLines last = lines last ++ [[]] := by
    intro last hline hreturn
    rw [endedLines, splitOn_of_not_mem hline, lines_of_not_mem hline, List.map_singleton, dropReturn,
      if_neg hreturn]
    split
    · rename_i hnil
      rw [hnil]
      exact .inr rfl
    · exact .inl rfl
  obtain hline | ⟨before, last, rfl, hline⟩ := exists_lastLine t
  · exact hone t hline h
  · have hsplit : endedLines (before ++ '\n' :: last) = endedLines before ++ endedLines last := by
      rw [endedLines, splitOn, splitBy_append rfl, List.map_append]
      rfl
    have hreturn : last.getLast? ≠ some '\r' := by
      intro hlast
      rw [List.getLast?_append, List.getLast?_cons, hlast] at h
      exact h rfl
    rw [hsplit, lines_append_lineFeed]
    rcases hone last hline hreturn with heq | heq
    · exact .inl (by rw [heq])
    · exact .inr (by rw [heq, List.append_assoc])

end Ended

end LayeredConfig.Text
