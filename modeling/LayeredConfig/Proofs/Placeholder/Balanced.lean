import LayeredConfig.Proofs.Placeholder.Recursion

/-! What the scanners of a text find. A text is balanced when every placeholder opened in it is closed
in it and it closes nothing else. The scan for a `${` gives the text up to the first one; the scan that
starts behind a `${` stops at a `}` exactly when the text up to there is balanced. -/

namespace LayeredConfig.Placeholder

/-- What opens a placeholder. -/
def opening : Text := ['$', '{']

/-- Every placeholder opened in the text is closed in it, and nothing else is closed. -/
inductive Balanced : Text → Prop where
  | nil : Balanced []
  | char {c : Char} {t : Text} (hclose : c ≠ '}') (hopen : ¬opening <+: c :: t) (ht : Balanced t) :
      Balanced (c :: t)
  | placeholder {body t : Text} (hbody : Balanced body) (ht : Balanced t) :
      Balanced (opening ++ body ++ '}' :: t)

/-- An opening takes two characters, so none starts where a text ends and another character follows. -/
theorem not_opening_append {c d : Char} {t : Text} (h : ¬opening <+: c :: t) (hd : d ≠ '{') (u : Text) :
    ¬opening <+: c :: (t ++ d :: u) := by
  cases t with
  | nil => simp [opening, hd.symm]
  | cons e t => simpa [opening] using h

/-- What a scan knows of a character that none of its other cases takes. -/
theorem not_opening_iff {c : Char} {t : Text} :
    ¬opening <+: c :: t ↔ ∀ u, c = '$' → t = '{' :: u → False := by
  constructor
  · rintro h u rfl rfl
    exact h ⟨u, rfl⟩
  · rintro h ⟨u, hu⟩
    cases hu
    exact h u rfl rfl

theorem ne_close_of_forall {c : Char} {depth : Nat} (hzero : depth = 0 → c = '}' → False)
    (hsucc : ∀ outer, depth = outer + 1 → c = '}' → False) : c ≠ '}' := by
  cases depth with
  | zero => exact hzero rfl
  | succ outer => exact hsucc outer rfl

/-! ### The first opening -/

section Opening

variable {t before after : Text} {c : Char}

theorem splitOpen_of_opening (h : opening <+: t) : splitOpen t = some ([], t.drop 2) := by
  obtain ⟨u, rfl⟩ := h
  rfl

theorem splitOpen_cons (h : ¬opening <+: c :: t) :
    splitOpen (c :: t) = (splitOpen t).map fun (before, after) => (c :: before, after) := by
  rw [splitOpen]
  exact not_opening_iff.1 h

theorem splitOpen_eq_none_iff : splitOpen t = none ↔ ¬opening <:+: t := by
  induction t with
  | nil => simp [splitOpen, opening]
  | cons c t ih =>
      rw [List.infix_cons_iff]
      by_cases hopen : opening <+: c :: t
      · simp [splitOpen_of_opening hopen, hopen]
      · simp [splitOpen_cons hopen, hopen, ih]

/-- An opening behind a text without one is the first, also when the text ends in `$`. -/
theorem splitOpen_append (h : ¬opening <:+: before) (after : Text) :
    splitOpen (before ++ (opening ++ after)) = some (before, after) := by
  induction before with
  | nil => rfl
  | cons c before ih =>
      rw [List.infix_cons_iff, not_or] at h
      have hopen : ¬opening <+: c :: (before ++ (opening ++ after)) := not_opening_append h.1 (by decide) _
      rw [List.cons_append, splitOpen_cons hopen, ih h.2, Option.map_some]

theorem splitOpen_eq_some_iff : splitOpen t = some (before, after) ↔
    t = before ++ (opening ++ after) ∧ ¬opening <:+: before := by
  constructor
  · intro h
    induction t generalizing before with
    | nil => cases h
    | cons c t ih =>
        by_cases hopen : opening <+: c :: t
        · rw [splitOpen_of_opening hopen] at h
          obtain ⟨u, hu⟩ := hopen
          cases h
          exact ⟨by rw [← hu]; rfl, by simp [opening]⟩
        · rw [splitOpen_cons hopen] at h
          obtain ⟨⟨first, rest⟩, hsplit, heq⟩ := Option.map_eq_some_iff.1 h
          cases heq
          obtain ⟨rfl, hfirst⟩ := ih hsplit
          refine ⟨rfl, ?_⟩
          rw [List.infix_cons_iff, not_or]
          exact ⟨fun hstarts => hopen (hstarts.trans (List.prefix_append (c :: first) _)), hfirst⟩
  · rintro ⟨rfl, hbefore⟩
    exact splitOpen_append hbefore after

end Opening

/-! ### The closing brace -/

section Closing

variable {t body rest : Text} {c : Char} {depth : Nat}

theorem closeAt_opening (depth : Nat) (t : Text) : closeAt depth (opening ++ t) =
    (closeAt (depth + 1) t).map fun (body, rest) => (opening ++ body, rest) := by
  rw [opening, List.cons_append, List.cons_append, List.nil_append, closeAt]
  rfl

theorem closeAt_cons (hclose : c ≠ '}') (hopen : ¬opening <+: c :: t) (depth : Nat) :
    closeAt depth (c :: t) = (closeAt depth t).map fun (body, rest) => (c :: body, rest) := by
  rw [closeAt]
  · exact not_opening_iff.1 hopen
  · exact fun _ => hclose
  · exact fun _ _ => hclose

/-- The scan passes over a balanced text. -/
theorem closeAt_append (h : Balanced body) (depth : Nat) (rest : Text) :
    closeAt depth (body ++ '}' :: rest) =
      (closeAt depth ('}' :: rest)).map fun (inner, outer) => (body ++ inner, outer) := by
  induction h generalizing depth rest with
  | nil => simp
  | @char c t hclose hopen _ ih =>
      rw [List.cons_append, closeAt_cons hclose (not_opening_append hopen (by decide) rest), ih,
        Option.map_map]
      rfl
  | @placeholder body t _ _ ihBody iht =>
      have hnested : opening ++ body ++ '}' :: t ++ '}' :: rest =
          opening ++ (body ++ '}' :: (t ++ '}' :: rest)) := by
        simp
      rw [hnested, closeAt_opening, ihBody, closeAt, iht, Option.map_map, Option.map_map, Option.map_map]
      congr 1
      funext ⟨inner, outer⟩
      simp

theorem splitClose_append (h : Balanced body) (rest : Text) :
    splitClose (body ++ '}' :: rest) = some (body, rest) := by
  simp [splitClose, closeAt_append h, closeAt]

/-- Closes `depth` placeholders that are open before it, and is balanced between them and after. -/
def ClosesAt : Nat → Text → Prop
  | 0, t => Balanced t
  | depth + 1, t => ∃ body rest, t = body ++ '}' :: rest ∧ Balanced body ∧ ClosesAt depth rest

theorem ClosesAt.char (hclose : c ≠ '}') (hopen : ¬opening <+: c :: t) (h : ClosesAt depth t) :
    ClosesAt depth (c :: t) := by
  cases depth with
  | zero => exact Balanced.char hclose hopen h
  | succ depth =>
      obtain ⟨body, rest, rfl, hbody, hrest⟩ := h
      refine ⟨c :: body, rest, rfl, Balanced.char hclose (fun hstarts => hopen ?_) hbody, hrest⟩
      exact hstarts.trans (List.prefix_append (c :: body) _)

theorem ClosesAt.placeholder (h : ClosesAt (depth + 1) t) : ClosesAt depth (opening ++ t) := by
  obtain ⟨body, rest, rfl, hbody, hrest⟩ := h
  rw [← List.append_assoc]
  cases depth with
  | zero => exact Balanced.placeholder hbody hrest
  | succ depth =>
      obtain ⟨inner, outer, rfl, hinner, houter⟩ := hrest
      exact ⟨opening ++ body ++ '}' :: inner, outer, by simp, Balanced.placeholder hbody hinner, houter⟩

/-- The scan stops at a brace, and what it has passed closes the placeholders that were open. -/
theorem closesAt_of_closeAt (h : closeAt depth t = some (body, rest)) :
    t = body ++ '}' :: rest ∧ ClosesAt depth body := by
  fun_induction closeAt depth t generalizing body with
  | case1 => cases h
  | case2 depth t ih =>
      obtain ⟨⟨inner, outer⟩, hinner, heq⟩ := Option.map_eq_some_iff.1 h
      cases heq
      obtain ⟨rfl, hcloses⟩ := ih hinner
      exact ⟨rfl, hcloses.placeholder⟩
  | case3 =>
      cases h
      exact ⟨rfl, Balanced.nil⟩
  | case4 depth t ih =>
      obtain ⟨⟨inner, outer⟩, hinner, heq⟩ := Option.map_eq_some_iff.1 h
      cases heq
      obtain ⟨rfl, hcloses⟩ := ih hinner
      exact ⟨rfl, [], inner, rfl, Balanced.nil, hcloses⟩
  | case5 depth c t hopen hclose hclose' ih =>
      obtain ⟨⟨inner, outer⟩, hinner, heq⟩ := Option.map_eq_some_iff.1 h
      cases heq
      obtain ⟨rfl, hcloses⟩ := ih hinner
      refine ⟨rfl, hcloses.char (ne_close_of_forall hclose hclose') fun hstarts => ?_⟩
      exact not_opening_iff.2 hopen (hstarts.trans (List.prefix_append (c :: inner) _))

theorem splitClose_eq_some_iff : splitClose t = some (body, rest) ↔ t = body ++ '}' :: rest ∧ Balanced body :=
  ⟨closesAt_of_closeAt, fun ⟨heq, hbody⟩ => heq ▸ splitClose_append hbody rest⟩

end Closing

/-! ### Balanced texts taken apart

What a scan has passed can be taken off: the rest closes the placeholders that are open by then. -/

section Apart

variable {t before after body : Text} {c : Char} {depth : Nat}

theorem Balanced.of_cons (hopen : ¬opening <+: c :: t) (h : Balanced (c :: t)) : c ≠ '}' ∧ Balanced t := by
  generalize hs : c :: t = s at h
  cases h with
  | nil => cases hs
  | char hclose _ ht =>
      cases hs
      exact ⟨hclose, ht⟩
  | placeholder _ _ => exact absurd ⟨_, by rw [hs, List.append_assoc]⟩ hopen

theorem not_balanced_close (t : Text) : ¬Balanced ('}' :: t) := fun h =>
  (h.of_cons (by simp [opening])).1 rfl

theorem Balanced.of_opening (h : Balanced (opening ++ t)) : ClosesAt 1 t := by
  generalize hs : opening ++ t = s at h
  cases h with
  | nil => cases hs
  | char _ hopen _ => exact absurd ⟨t, hs⟩ hopen
  | @placeholder body rest hbody hrest =>
      rw [List.append_assoc, List.append_cancel_left_eq] at hs
      exact ⟨body, rest, hs, hbody, hrest⟩

theorem ClosesAt.of_char (hclose : c ≠ '}') (hopen : ¬opening <+: c :: t) (h : ClosesAt depth (c :: t)) :
    ClosesAt depth t := by
  cases depth with
  | zero => exact (Balanced.of_cons hopen h).2
  | succ depth =>
      obtain ⟨body, rest, heq, hbody, hrest⟩ := h
      cases body with
      | nil => exact absurd (List.cons.inj heq).1 hclose
      | cons d body =>
          obtain ⟨rfl, rfl⟩ := List.cons.inj heq
          have hshort : ¬opening <+: c :: body := fun hstarts =>
            hopen (hstarts.trans (List.prefix_append (c :: body) _))
          exact ⟨body, rest, rfl, (hbody.of_cons hshort).2, hrest⟩

theorem ClosesAt.of_opening (h : ClosesAt depth (opening ++ t)) : ClosesAt (depth + 1) t := by
  cases depth with
  | zero => exact Balanced.of_opening h
  | succ depth =>
      obtain ⟨body, rest, heq, hbody, hrest⟩ := h
      match body with
      | [] => simp [opening] at heq
      | [d] => simp [opening] at heq
      | d :: e :: body =>
          simp only [opening, List.cons_append, List.nil_append, List.cons.injEq] at heq
          obtain ⟨rfl, rfl, rfl⟩ := heq
          obtain ⟨inner, outer, rfl, hinner, houter⟩ := hbody.of_opening
          exact ⟨inner, outer ++ '}' :: rest, by simp, hinner, outer, rest, rfl, houter, hrest⟩

theorem ClosesAt.of_close (h : ClosesAt depth ('}' :: t)) : ∃ outer, depth = outer + 1 ∧ ClosesAt outer t := by
  cases depth with
  | zero => exact absurd h (not_balanced_close t)
  | succ depth =>
      obtain ⟨body, rest, heq, hbody, hrest⟩ := h
      cases body with
      | nil =>
          obtain ⟨-, rfl⟩ := List.cons.inj heq
          exact ⟨depth, rfl, hrest⟩
      | cons d body =>
          obtain ⟨rfl, -⟩ := List.cons.inj heq
          exact absurd hbody (not_balanced_close body)

theorem ClosesAt.exists_tail (h : ClosesAt depth (c :: t)) : ∃ depth', ClosesAt depth' t := by
  by_cases hclose : c = '}'
  · subst hclose
    obtain ⟨outer, -, houter⟩ := h.of_close
    exact ⟨outer, houter⟩
  · by_cases hopen : opening <+: c :: t
    · -- only half of the opening is taken off, and its brace is a character like others
      obtain ⟨u, hu⟩ := hopen
      rw [← hu] at h
      obtain ⟨-, rfl⟩ := List.cons.inj hu
      exact ⟨depth + 1, h.of_opening.char (by decide) (by simp [opening])⟩
    · exact ⟨depth, h.of_char hclose hopen⟩

theorem ClosesAt.exists_drop (before : Text) (h : ClosesAt depth (before ++ t)) :
    ∃ depth', ClosesAt depth' t := by
  induction before generalizing depth with
  | nil => exact ⟨depth, h⟩
  | cons c before ih =>
      obtain ⟨depth', htail⟩ := h.exists_tail
      exact ih htail

/-- Every placeholder that is opened in a balanced text is closed in it. -/
theorem Balanced.exists_close (h : Balanced (before ++ (opening ++ after))) :
    ∃ body rest, after = body ++ '}' :: rest ∧ Balanced body := by
  have hcloses : ClosesAt 0 (before ++ (opening ++ after)) := h
  obtain ⟨depth, hopening⟩ := hcloses.exists_drop before
  obtain ⟨body, rest, heq, hbody, -⟩ := hopening.of_opening
  exact ⟨body, rest, heq, hbody⟩

/-- A brace behind a balanced text closes nothing that is opened in it. -/
theorem Balanced.not_append_close (h : Balanced body) (rest : Text) : ¬Balanced (body ++ '}' :: rest) := by
  intro hlonger
  have hfirst := splitClose_append h (rest ++ ['}'])
  have hsecond := splitClose_append hlonger []
  rw [List.append_assoc, List.cons_append, hfirst] at hsecond
  have hlength := congrArg List.length (Prod.mk.inj (Option.some.inj hsecond)).1
  simp at hlength

instance : DecidablePred Balanced := fun t =>
  decidable_of_iff (splitClose (t ++ ['}']) = some (t, [])) (splitClose_eq_some_iff.trans (and_iff_right rfl))

end Apart

/-! ### The default -/

/-- Nothing of a body is lost between its key and its default but the colon that divides them. -/
theorem defaultAt_append (depth : Nat) (t : Text) :
    (defaultAt depth t).1 ++ ((defaultAt depth t).2.map (':' :: ·)).getD [] = t := by
  fun_induction defaultAt depth t with
  | case1 => rfl
  | case2 depth t key default hdefault ih => simpa [hdefault] using ih
  | case3 depth t key default hdefault ih => simpa [hdefault] using ih
  | case4 => rfl
  | case5 depth c t _ _ _ key default hdefault ih => simpa [hdefault] using ih

end LayeredConfig.Placeholder
