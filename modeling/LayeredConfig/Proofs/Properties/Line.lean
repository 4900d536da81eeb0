import LayeredConfig.Properties.Line

/-! Continued lines, read from the left. Whether a line is continued is told by the backslashes at its end;
read from the left, every backslash takes the character after it with it, and the line is continued when
its last backslash has no character left to take. A line that is not continued is a logical line by
itself. However lines are continued, nothing is added to them. -/

namespace LayeredConfig.Properties

/-- The text ends in a backslash that takes no character with it. -/
def dangling : Text → Bool
  | [] => false
  | ['\\'] => true
  | '\\' :: _ :: t => dangling t
  | _ :: t => dangling t

/-- The number of backslashes at the end. -/
def trailing (t : Text) : Nat := (t.reverse.takeWhile (· == '\\')).length

section Trailing

variable {c : Char} {t : Text}

theorem trailing_le (t : Text) : trailing t ≤ t.length :=
  Nat.le_trans (List.takeWhile_sublist _).length_le (Nat.le_of_eq List.length_reverse)

/-- A character in front of a text counts only when everything after it is a backslash. -/
theorem trailing_cons (c : Char) (t : Text) :
    trailing (c :: t) = if trailing t = t.length ∧ c = '\\' then t.length + 1 else trailing t := by
  unfold trailing
  rw [List.reverse_cons, List.takeWhile_append, List.length_reverse]
  by_cases hall : (t.reverse.takeWhile (· == '\\')).length = t.length
  · by_cases hc : c = '\\' <;> simp [hall, hc]
  · rw [if_neg hall, if_neg fun h => hall h.1]

theorem trailing_cons_of_ne (h : c ≠ '\\') (t : Text) : trailing (c :: t) = trailing t := by
  rw [trailing_cons, if_neg fun hboth => h hboth.2]

/-- A backslash and the character after it do not change the parity. -/
theorem trailing_escape (c : Char) (t : Text) : trailing ('\\' :: c :: t) % 2 = trailing t % 2 := by
  have hle := trailing_le t
  rw [trailing_cons, trailing_cons, List.length_cons]
  by_cases hboth : trailing t = t.length ∧ c = '\\'
  · rw [if_pos hboth, if_pos ⟨rfl, rfl⟩, hboth.1]
    omega
  · rw [if_neg hboth, if_neg fun h => by omega]

/-- What is left when a backslash has neither nothing nor a character after it. -/
theorem ne_backslash (hone : c = '\\' → t = [] → False) (hmore : ∀ d rest, c = '\\' → t = d :: rest → False) :
    c ≠ '\\' := by
  intro hc
  cases t with
  | nil => exact hone hc rfl
  | cons d rest => exact hmore d rest hc rfl

theorem dangling_cons_of_ne (h : c ≠ '\\') (t : Text) : dangling (c :: t) = dangling t := by
  rw [dangling]
  · exact fun heq => absurd heq h
  · exact fun _ _ heq => absurd heq h

theorem trailing_mod_two (t : Text) : trailing t % 2 = (dangling t).toNat := by
  fun_induction dangling t with
  | case1 => rfl
  | case2 => rfl
  | case3 c t ih => rw [trailing_escape, ih]
  | case4 c t hone hmore ih => rw [trailing_cons_of_ne (ne_backslash hone hmore), ih]

/-- Counting backslashes from the right and pairing them from the left agree. -/
theorem continues_eq_dangling (t : Text) : continues t = dangling t := by
  have hcount : continues t = (trailing t % 2 == 1) := rfl
  rw [hcount, trailing_mod_two]
  cases dangling t <;> rfl

end Trailing

/-! ### Lines put together -/

section Joints

variable {s t : Text}

theorem dangling_append (h : dangling s = false) (t : Text) : dangling (s ++ t) = dangling t := by
  fun_induction dangling s with
  | case1 => rfl
  | case2 => cases h
  | case3 c s ih => rw [List.cons_append, List.cons_append, dangling, ih h]
  | case4 c s hone hmore ih =>
      rw [List.cons_append, dangling_cons_of_ne (ne_backslash hone hmore), ih h]

theorem continues_escape (c : Char) (t : Text) : continues ('\\' :: c :: t) = continues t := by
  rw [continues_eq_dangling, dangling, continues_eq_dangling]

theorem continues_cons_of_ne {c : Char} (h : c ≠ '\\') (t : Text) : continues (c :: t) = continues t := by
  rw [continues_eq_dangling, dangling_cons_of_ne h, continues_eq_dangling]

/-- After a text that is not continued, only what follows counts. -/
theorem continues_append (h : continues s = false) (t : Text) : continues (s ++ t) = continues t := by
  rw [continues_eq_dangling] at h ⊢
  rw [continues_eq_dangling, dangling_append h]

theorem continues_cons_of_blank {c : Char} (h : isBlank c = true) (t : Text) :
    continues (c :: t) = continues t := by
  refine continues_cons_of_ne ?_ t
  rintro rfl
  cases h

theorem continues_trimStart (t : Text) : continues (trimStart t) = continues t := by
  induction t with
  | nil => rfl
  | cons c t ih =>
      rw [trimStart, List.dropWhile_cons]
      split
      · rename_i hblank
        rw [continues_cons_of_blank hblank]
        exact ih
      · rfl

/-- Blanks are passed over up to the first character that is none. -/
theorem trimStart_append (h : trimStart s ≠ []) (t : Text) : trimStart (s ++ t) = trimStart s ++ t := by
  have hne : ¬(s.dropWhile isBlank).isEmpty = true := fun hnil => h (List.isEmpty_iff.1 hnil)
  rw [trimStart, List.dropWhile_append, if_neg hne]
  rfl

theorem trimStart_append_of_blanks (h : ∀ c ∈ s, isBlank c = true) (t : Text) :
    trimStart (s ++ t) = trimStart t :=
  List.dropWhile_append_of_pos h

/-- What is open at the end of a continued text is one backslash. -/
theorem exists_of_dangling (h : dangling t = true) : ∃ s, t = s ++ ['\\'] ∧ dangling s = false := by
  fun_induction dangling t with
  | case1 => cases h
  | case2 => exact ⟨[], rfl, rfl⟩
  | case3 c t ih =>
      obtain ⟨s, rfl, hs⟩ := ih h
      exact ⟨'\\' :: c :: s, rfl, by rw [dangling, hs]⟩
  | case4 c t hone hmore ih =>
      obtain ⟨s, rfl, hs⟩ := ih h
      exact ⟨c :: s, rfl, by rw [dangling_cons_of_ne (ne_backslash hone hmore), hs]⟩

theorem exists_of_continues (h : continues t = true) : ∃ s, t = s ++ ['\\'] ∧ continues s = false := by
  rw [continues_eq_dangling] at h
  obtain ⟨s, rfl, hs⟩ := exists_of_dangling h
  exact ⟨s, rfl, by rw [continues_eq_dangling, hs]⟩

end Joints

/-! ### Lines that stand by themselves -/

theorem complete_of_whole {line : Text} (h : continues line = false) (rest : List (Nat × Text)) :
    complete line rest = (line, rest) := by
  cases rest with
  | nil => rw [complete, h, if_neg Bool.false_ne_true]
  | cons next rest => rw [complete, h, if_neg Bool.false_ne_true]

theorem logicalLines_cons_of_whole {number : Nat} {line : Text} (hidle : isIdle (trimStart line) = false)
    (hwhole : continues (trimStart line) = false) (rest : List (Nat × Text)) :
    logicalLines ((number, line) :: rest) = ⟨number, trimStart line⟩ :: logicalLines rest := by
  rw [logicalLines]
  dsimp only
  rw [hidle, if_neg Bool.false_ne_true, complete_of_whole hwhole]

/-! ### What logical lines are made of -/

theorem trimStart_sublist (t : Text) : (trimStart t).Sublist t := List.dropWhile_sublist isBlank

theorem complete_sublist (line : Text) (rest : List (Nat × Text)) :
    ((complete line rest).1 ++ (complete line rest).2.flatMap Prod.snd).Sublist
      (line ++ rest.flatMap Prod.snd) := by
  induction rest generalizing line with
  | nil =>
      rw [complete]
      refine .append ?_ (.refl _)
      split
      · exact List.dropLast_sublist line
      · exact .refl line
  | cons next rest ih =>
      rw [complete]
      split
      · refine (ih _).trans ?_
        rw [List.flatMap_cons, ← List.append_assoc]
        exact ((List.dropLast_sublist line).append (trimStart_sublist next.2)).append (.refl _)
      · exact .refl _

/-- Logical lines hold nothing but characters of the lines, in order. -/
theorem logicalLines_sublist (lines : List (Nat × Text)) :
    ((logicalLines lines).flatMap LogicalLine.text).Sublist (lines.flatMap Prod.snd) := by
  fun_induction logicalLines lines with
  | case1 => exact .refl _
  | case2 number line rest start hidle ih => exact ih.trans (List.sublist_append_right ..)
  | case3 number line rest start hidle done ih =>
      refine (List.Sublist.append (.refl done.1) ih).trans ((complete_sublist start rest).trans ?_)
      exact (trimStart_sublist line).append (.refl _)

end LayeredConfig.Properties
