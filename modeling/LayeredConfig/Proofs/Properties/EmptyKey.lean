import LayeredConfig.Proofs.Properties.Block
import LayeredConfig.Proofs.Properties.Price
import LayeredConfig.Properties.Parser

/-! Entries with an empty key. Each logical line is read as one entry. Its key is empty when the line starts
with a separator, and also when there is nothing on the line: blank lines are passed over where an entry
could start, but a line that holds nothing but a backslash is not blank, and the lines it is continued by are
not looked at again. So a line can come to nothing when it is put together, and is read as an entry all the
same. -/

namespace LayeredConfig.Properties

/-- A separator is the first character of a text. -/
def StartsWithSeparator (t : Text) : Prop := ∃ c rest, t = c :: rest ∧ isSeparator c = true

/-- A logical line whose physical lines are blank, but for the backslashes that continue them. -/
def Hollow (lines : List Text) (line : LogicalLine) : Prop :=
  ∃ before first more after, EntryAt lines before first more after ∧
    line = ⟨before.length + 1, joined (first :: more)⟩ ∧
    ∀ physical ∈ first :: more, trimStart physical = [] ∨ trimStart physical = ['\\']

/-! ### Joined lines -/

section Joined

variable {block lines : List Text} {line : LogicalLine} {t : Text}

theorem strip_eq_nil_iff : strip t = [] ↔ t = [] ∨ t = ['\\'] := by
  cases ht : continues t with
  | false =>
      rw [strip_of_whole ht]
      refine ⟨.inl, fun h => h.resolve_right ?_⟩
      rintro rfl
      cases ht
  | true =>
      obtain ⟨s, rfl, hs⟩ := exists_of_continues ht
      rw [strip_backslash hs]
      simp

theorem joined_eq_nil_iff :
    joined block = [] ↔ ∀ line ∈ block, trimStart line = [] ∨ trimStart line = ['\\'] := by
  rw [joined, List.flatMap_eq_nil_iff]
  exact forall₂_congr fun line _ => strip_eq_nil_iff

theorem text_eq_nil_iff (h : Holds lines line) : line.text = [] ↔ Hollow lines line := by
  constructor
  · intro hnil
    obtain ⟨before, first, more, after, hentry, rfl⟩ := h
    exact ⟨before, first, more, after, hentry, rfl, joined_eq_nil_iff.1 hnil⟩
  · rintro ⟨before, first, more, after, -, rfl, hblank⟩
    exact joined_eq_nil_iff.2 hblank

/-- Every line of a block gives up the backslash that continues it. -/
theorem continues_joined (block : List Text) : continues (joined block) = false := by
  induction block with
  | nil => rfl
  | cons line block ih =>
      rw [joined, List.flatMap_cons, share, continues_append (continues_strip _)]
      exact ih

theorem head_trimStart (t : Text) : ∀ c ∈ (trimStart t).head?, isBlank c = false := by
  intro c hc
  have hhead := List.head?_dropWhile_not isBlank t
  rw [Option.mem_def, trimStart] at hc
  rwa [hc] at hhead

theorem head_strip (t : Text) : ∀ c ∈ (strip t).head?, c ∈ t.head? := by
  intro c hc
  cases ht : continues t with
  | false => rwa [strip_of_whole ht] at hc
  | true =>
      obtain ⟨s, rfl, hs⟩ := exists_of_continues ht
      rw [strip_backslash hs] at hc
      rw [List.head?_append, Option.mem_def.1 hc]
      rfl

/-- The blanks at the starts of lines are gone. -/
theorem head_joined (block : List Text) : ∀ c ∈ (joined block).head?, isBlank c = false := by
  induction block with
  | nil => simp [joined]
  | cons line block ih =>
      intro c hc
      rw [joined, List.flatMap_cons, List.head?_append, Option.mem_def, Option.or_eq_some_iff] at hc
      rcases hc with hshare | ⟨-, hblock⟩
      · exact head_trimStart line c (head_strip _ c hshare)
      · exact ih c hblock

theorem Holds.continues_text (h : Holds lines line) : continues line.text = false := by
  obtain ⟨before, first, more, after, -, rfl⟩ := h
  exact continues_joined _

theorem Holds.head_text (h : Holds lines line) : ∀ c ∈ line.text.head?, isBlank c = false := by
  obtain ⟨before, first, more, after, -, rfl⟩ := h
  exact head_joined _

end Joined

/-! ### Keys -/

section Keys

variable {t s : Text} {units : List Nat}

theorem ne_nil_of_decode (h : Utf16.decode units = .ok s) (hunits : units ≠ []) : s ≠ [] := by
  fun_induction Utf16.decode units generalizing s with
  | case1 => exact absurd rfl hunits
  | case3 | case4 | case5 => cases h
  | case2 | case6 =>
      obtain ⟨after, -, rfl⟩ := ok_of_map_eq_ok h
      exact List.cons_ne_nil _ _

/-- Nothing that stands in a part is lost altogether, but for a backslash at its end. -/
theorem ne_nil_of_unescapeAfter (h : unescapeAfter units t = .ok s)
    (hsome : units ≠ [] ∨ t ≠ [] ∧ continues t = false) : s ≠ [] := by
  fun_induction unescapeAfter units t with
  | case1 units => exact ne_nil_of_decode (ok_of_mapError_eq_ok h) (hsome.resolve_right fun hright => hright.1 rfl)
  | case2 units a b c d t unit hunit ih => exact ih h (.inl (List.append_ne_nil_of_right_ne_nil _ (by simp)))
  | case3 | case4 => cases h
  | case5 units =>
      exact ne_nil_of_decode (ok_of_mapError_eq_ok h) (hsome.resolve_right fun hright => Bool.noConfusion hright.2)
  | case6 | case7 =>
      obtain ⟨before, -, hrest⟩ := ok_of_bind_eq_ok h
      obtain ⟨after, -, heq⟩ := ok_of_bind_eq_ok hrest
      cases heq
      simp

theorem key_eq_nil_iff (h : unescape t = .ok s) (hwhole : continues t = false) : s = [] ↔ t = [] := by
  constructor
  · intro hs
    by_contra ht
    exact ne_nil_of_unescapeAfter h (.inr ⟨ht, hwhole⟩) hs
  · rintro rfl
    cases h
    rfl

/-- No separator is looked for after a backslash, so a key takes the character after each of its own. -/
theorem continues_splitKey (h : continues t = false) : continues (splitKey t).1 = false := by
  rw [continues_eq_dangling] at h ⊢
  fun_induction splitKey t with
  | case1 => rfl
  | case2 c t key rest hsplit ih =>
      rw [hsplit] at ih
      rw [dangling] at h ⊢
      exact ih h
  | case3 => rfl
  | case4 c t hescape hkey key rest hsplit ih =>
      have hc : c ≠ '\\' := by
        rintro rfl
        cases t with
        | nil => cases h
        | cons d t => exact hescape d t rfl rfl
      rw [hsplit] at ih
      rw [dangling_cons_of_ne hc] at h ⊢
      exact ih h

/-- A key is empty when a separator is the first thing to be met; a blank is not, where blanks are gone. -/
theorem splitKey_eq_nil_iff (hhead : ∀ c ∈ t.head?, isBlank c = false) (hwhole : continues t = false) :
    (splitKey t).1 = [] ↔ t = [] ∨ StartsWithSeparator t := by
  fun_induction splitKey t with
  | case1 => simp
  | case2 c t key rest hsplit ih =>
      refine iff_of_false (List.cons_ne_nil _ _) ?_
      rintro (hnil | ⟨d, rest, heq, hseparator⟩)
      · cases hnil
      · cases heq
        cases hseparator
  | case3 c t hescape hkey =>
      have hblank : isBlank c = false := hhead c rfl
      rw [hblank, Bool.or_false] at hkey
      exact iff_of_true rfl (.inr ⟨c, t, rfl, hkey⟩)
  | case4 c t hescape hkey key rest hsplit ih =>
      refine iff_of_false (List.cons_ne_nil _ _) ?_
      rintro (hnil | ⟨d, rest, heq, hseparator⟩)
      · cases hnil
      · cases heq
        exact hkey (by rw [hseparator, Bool.true_or])

end Keys

section Entries

variable {t : Text} {entries : List (Text × Text)}

theorem empty_key_iff_of_parseEntry {line : LogicalLine} {entry : Text × Text}
    (h : parseEntry line = .ok entry) (hhead : ∀ c ∈ line.text.head?, isBlank c = false)
    (hwhole : continues line.text = false) :
    entry.1 = [] ↔ line.text = [] ∨ StartsWithSeparator line.text := by
  obtain ⟨key, hkey, hrest⟩ := ok_of_bind_eq_ok (ok_of_mapError_eq_ok h)
  obtain ⟨value, -, heq⟩ := ok_of_bind_eq_ok hrest
  cases heq
  rw [← splitKey_eq_nil_iff hhead hwhole]
  exact key_eq_nil_iff hkey (continues_splitKey hwhole)

/-- The entries of a text are read one by one from the logical lines that it holds. A key is empty exactly
when its line starts with a separator, or is hollow. -/
theorem empty_key_iff (h : parse t = .ok entries) :
    ∃ lines : List LogicalLine, lines.Pairwise (·.number < ·.number) ∧
      (∀ line, line ∈ lines ↔ Holds (Text.lines t) line) ∧
      List.Forall₂ (fun line entry => parseEntry line = .ok entry ∧
        (entry.1 = [] ↔ Hollow (Text.lines t) line ∨ StartsWithSeparator line.text)) lines entries := by
  refine ⟨logicalLines (numbered (Text.lines t)), pairwise_number_lt 0 _, fun line => mem_logicalLines_iff, ?_⟩
  have hread := (List.forall₂_and_left _ _).2
    ⟨fun _ hmem => mem_logicalLines_iff.1 hmem, forall₂_of_mapM_eq_ok h⟩
  refine hread.imp fun line entry ⟨hheld, hentry⟩ => ⟨hentry, ?_⟩
  rw [← text_eq_nil_iff hheld]
  exact empty_key_iff_of_parseEntry hentry hheld.head_text hheld.continues_text

/-- Of three entries with an empty key, two start with a separator. The first is a backslash and a blank line. -/
theorem empty_key_listing :
    parse "\\\n\n=x\n: y\nk\n".toList =
        .ok [([], []), ([], ['x']), ([], ['y']), (['k'], [])] ∧
      ∃ lines : List LogicalLine, lines.Pairwise (·.number < ·.number) ∧
        (∀ line, line ∈ lines ↔ Holds (Text.lines "\\\n\n=x\n: y\nk\n".toList) line) ∧
        List.Forall₂ (fun line entry => parseEntry line = .ok entry ∧
          (entry.1 = [] ↔
            Hollow (Text.lines "\\\n\n=x\n: y\nk\n".toList) line ∨ StartsWithSeparator line.text))
          lines [([], []), ([], ['x']), ([], ['y']), (['k'], [])] := by
  have hparse : parse "\\\n\n=x\n: y\nk\n".toList =
      .ok [([], []), ([], ['x']), ([], ['y']), (['k'], [])] := by decide +kernel
  exact ⟨hparse, empty_key_iff hparse⟩

/-- A hollow line is read as an entry with an empty key, though no line starts with a separator. -/
theorem parse_hollow_line :
    ¬∀ t entries, parse t = .ok entries → [] ∈ entries.map Prod.fst →
      ∃ line, Holds (Text.lines t) line ∧ StartsWithSeparator line.text := by
  intro h
  have hparse : parse "\\\n\na=b\n".toList = .ok [([], []), (['a'], ['b'])] := by decide +kernel
  have hlines : logicalLines (numbered (Text.lines "\\\n\na=b\n".toList)) =
      [⟨1, []⟩, ⟨3, ['a', '=', 'b']⟩] := by decide +kernel
  obtain ⟨line, hheld, c, rest, htext, hseparator⟩ := h _ _ hparse List.mem_cons_self
  rw [← mem_logicalLines_iff, hlines, List.mem_cons, List.mem_singleton] at hheld
  rcases hheld with rfl | rfl
  · cases htext
  · cases htext
    cases hseparator

end Entries

end LayeredConfig.Properties
