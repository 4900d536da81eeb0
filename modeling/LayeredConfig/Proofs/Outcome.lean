import Mathlib.Data.List.Forall2

/-! Computations that can fail. One that is put together from others succeeds when all of them do, and fails
as the first of them that fails. -/

namespace LayeredConfig

variable {ε ε' α β γ : Type}

theorem ok_of_bind_eq_ok {x : Except ε α} {f : α → Except ε β} {b : β} (h : (x >>= f) = .ok b) :
    ∃ a, x = .ok a ∧ f a = .ok b := by
  cases x with
  | error e => cases h
  | ok a => exact ⟨a, rfl, h⟩

theorem ok_of_map_eq_ok {x : Except ε α} {f : α → β} {b : β} (h : x.map f = .ok b) :
    ∃ a, x = .ok a ∧ f a = b := by
  cases x with
  | error e => cases h
  | ok a => exact ⟨a, rfl, Except.ok.inj h⟩

theorem ok_of_mapError_eq_ok {x : Except ε α} {f : ε → ε'} {a : α} (h : x.mapError f = .ok a) :
    x = .ok a := by
  cases x with
  | error e => cases h
  | ok a => exact congrArg _ (Except.ok.inj h)

theorem not_exists_error_eq_ok {e : ε} : ¬∃ a : α, Except.error e = .ok a := by
  rintro ⟨a, h⟩
  cases h

theorem exists_ok_mapError_iff {x : Except ε α} {f : ε → ε'} :
    (∃ a, x.mapError f = .ok a) ↔ ∃ a, x = .ok a := by
  constructor
  · rintro ⟨a, h⟩
    exact ⟨a, ok_of_mapError_eq_ok h⟩
  · rintro ⟨a, rfl⟩
    exact ⟨a, rfl⟩

/-- Two computations, one after the other. -/
theorem exists_ok_both_iff {x : Except ε α} {y : Except ε β} {f : α → β → γ} :
    (∃ c, (do let a ← x; let b ← y; return f a b : Except ε γ) = .ok c) ↔
      (∃ a, x = .ok a) ∧ ∃ b, y = .ok b := by
  constructor
  · rintro ⟨c, h⟩
    obtain ⟨a, ha, hrest⟩ := ok_of_bind_eq_ok h
    obtain ⟨b, hb, -⟩ := ok_of_bind_eq_ok hrest
    exact ⟨⟨a, ha⟩, b, hb⟩
  · rintro ⟨⟨a, rfl⟩, b, rfl⟩
    exact ⟨f a b, rfl⟩

section Lists

variable {f : α → Except ε β} {l : List α}

theorem forall₂_of_mapM_eq_ok {r : List β} (h : l.mapM f = .ok r) :
    List.Forall₂ (fun a b => f a = .ok b) l r := by
  induction l generalizing r with
  | nil =>
      cases h
      exact .nil
  | cons a l ih =>
      rw [List.mapM_cons] at h
      obtain ⟨b, hb, hrest⟩ := ok_of_bind_eq_ok h
      obtain ⟨more, hmore, heq⟩ := ok_of_bind_eq_ok hrest
      cases heq
      exact .cons hb (ih hmore)

theorem exists_ok_mapM_iff : (∃ r, l.mapM f = .ok r) ↔ ∀ a ∈ l, ∃ b, f a = .ok b := by
  induction l with
  | nil => exact ⟨fun _ => List.forall_mem_nil _, fun _ => ⟨[], rfl⟩⟩
  | cons a l ih => rw [List.mapM_cons, exists_ok_both_iff, ih, List.forall_mem_cons]

/-- The first item that fails decides how all of them fail. -/
theorem mapM_of_first_error {before after : List α} {a : α} {e : ε}
    (hbefore : ∀ b ∈ before, ∃ c, f b = .ok c) (h : f a = .error e) :
    (before ++ a :: after).mapM f = .error e := by
  obtain ⟨r, hr⟩ := exists_ok_mapM_iff.2 hbefore
  rw [List.mapM_append, hr, List.mapM_cons, h]
  rfl

theorem forall_or_first (P : α → Prop) (l : List α) :
    (∀ a ∈ l, P a) ∨ ∃ before a after, l = before ++ a :: after ∧ (∀ b ∈ before, P b) ∧ ¬P a := by
  induction l with
  | nil => exact .inl (List.forall_mem_nil _)
  | cons a l ih =>
      by_cases ha : P a
      · rcases ih with hl | ⟨before, b, after, rfl, hbefore, hb⟩
        · exact .inl (List.forall_mem_cons.2 ⟨ha, hl⟩)
        · exact .inr ⟨a :: before, b, after, rfl, List.forall_mem_cons.2 ⟨ha, hbefore⟩, hb⟩
      · exact .inr ⟨[], a, l, rfl, List.forall_mem_nil _, ha⟩

end Lists

end LayeredConfig
