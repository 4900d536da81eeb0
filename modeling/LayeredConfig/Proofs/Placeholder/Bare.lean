import LayeredConfig.Proofs.Placeholder.Balanced

/-! Keys that stand in a placeholder as they are: nothing in them opens, closes or divides one. A
placeholder around such a key is found whole, has no default, and makes the search that a look-up of the
key makes. -/

namespace LayeredConfig.Placeholder

structure Bare (key : Text) : Prop where
  unopened : splitOpen key = none
  undivided : ':' ∉ key
  unclosed : '}' ∉ key

theorem splitOpen_tail {c : Char} {t : Text} (h : splitOpen (c :: t) = none) : splitOpen t = none := by
  rw [splitOpen_eq_none_iff, List.infix_cons_iff, not_or] at h
  exact splitOpen_eq_none_iff.2 h.2

theorem Bare.tail {c : Char} {t : Text} (h : Bare (c :: t)) : Bare t :=
  ⟨splitOpen_tail h.unopened, fun hmem => h.undivided (List.mem_cons_of_mem c hmem),
    fun hmem => h.unclosed (List.mem_cons_of_mem c hmem)⟩

theorem Bare.balanced {key : Text} (h : Bare key) : Balanced key := by
  induction key with
  | nil => exact Balanced.nil
  | cons c key ih =>
      have hclose : c ≠ '}' := fun heq => h.unclosed (heq ▸ List.mem_cons_self)
      have hopen : ¬opening <+: c :: key := fun hstarts =>
        splitOpen_eq_none_iff.1 h.unopened hstarts.isInfix
      exact Balanced.char hclose hopen (ih h.tail)

theorem splitDefault_of_bare {key : Text} (h : Bare key) : splitDefault key = (key, none) := by
  unfold splitDefault
  induction key with
  | nil => rfl
  | cons c key ih =>
      have hclose : c ≠ '}' := fun heq => h.unclosed (heq ▸ List.mem_cons_self)
      have hcolon : c ≠ ':' := fun heq => h.undivided (heq ▸ List.mem_cons_self)
      rw [defaultAt, ih h.tail]
      · rintro u rfl rfl
        simpa [splitOpen] using h.unopened
      · exact hclose
      · exact fun _ => hcolon

theorem firstPlaceholder_reference {before key : Text} (hbefore : ¬opening <:+: before) (h : Bare key)
    (after : Text) :
    firstPlaceholder (before ++ (opening ++ (key ++ '}' :: after))) = some (before, key, after) :=
  firstPlaceholder_eq_some_iff.2
    ⟨key ++ '}' :: after, splitOpen_append hbefore _, splitClose_append h.balanced after⟩

section Search

variable {scope : Scope} {chain : List Text} {before key after : Text} {memo : Memo}

theorem evaluate_of_bare (h : Bare key) :
    evaluate scope chain key memo =
      let found := find scope chain (Text.trim key) memo
      ⟨found.value.getD [], found.cut, found.memo⟩ := by
  have hkey : expand scope chain (splitDefault key).1 memo = ⟨key, false, memo⟩ := by
    rw [splitDefault_of_bare h]
    exact expand_of_none (by rw [firstPlaceholder, h.unopened])
  have hdefault : defaultOf key = [] := by rw [defaultOf, splitDefault_of_bare h, Option.getD_none]
  have hfind : find scope chain (Text.trim (expand scope chain (splitDefault key).1 memo).value)
      (expand scope chain (splitDefault key).1 memo).memo = find scope chain (Text.trim key) memo := by
    rw [hkey]
  cases hfound : (find scope chain (Text.trim key) memo).value with
  | some value =>
      rw [evaluate_of_some ((congrArg Outcome.value hfind).trans hfound)]
      simp [hkey, hfound]
  | none =>
      rw [evaluate_of_none ((congrArg Outcome.value hfind).trans hfound)]
      simp [hkey, hfound, hdefault, expand_nil]

/-- A text with one placeholder, around a bare key. -/
theorem expand_reference (hbefore : ¬opening <:+: before) (h : Bare key) (hafter : ¬opening <:+: after) :
    expand scope chain (before ++ (opening ++ (key ++ '}' :: after))) memo =
      let found := find scope chain (Text.trim key) memo
      ⟨before ++ found.value.getD [] ++ after, found.cut, found.memo⟩ := by
  have hrest : firstPlaceholder after = none := by
    rw [firstPlaceholder, splitOpen_eq_none_iff.2 hafter]
  rw [expand_of_some (firstPlaceholder_reference hbefore h after), evaluate_of_bare h]
  dsimp only
  rw [expand_of_none hrest, Bool.or_false]

/-- A placeholder around a bare key makes the search that `lookup` makes. -/
theorem Evaluator.resolve_placeholder (h : Bare key) :
    (Evaluator.resolve { scope } ('$' :: '{' :: (key ++ ['}']))).1 =
      (Evaluator.lookup { scope } key).1.getD [] := by
  have hnil : ¬opening <:+: [] := by decide
  change (expand scope [] ([] ++ (opening ++ (key ++ '}' :: []))) (Memo.renew {})).value = _
  rw [expand_reference hnil h hnil]
  exact List.append_nil _

end Search

end LayeredConfig.Placeholder
