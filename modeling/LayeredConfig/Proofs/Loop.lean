import Mathlib.Logic.Relation

/-! Loops. Each turn of a loop goes on to another state, or ends the loop with a result. What a turn keeps
holds of every state that the loop comes to. The result of a loop is found by taking its turns one by one, so
a loop is compared with a recursive function case by case. -/

namespace LayeredConfig

/-- What a turn of a loop does. -/
inductive Turn (σ ρ : Type) where
  | on (state : σ)
  | done (result : ρ)

section Loops

variable {σ ρ : Type} {turn : σ → Turn σ ρ} {start state next : σ} {result other : ρ}

/-- The loop comes to a state, be it the one it starts from. -/
def Visits (turn : σ → Turn σ ρ) : σ → σ → Prop :=
  Relation.ReflTransGen fun state next => turn state = .on next

/-- The loop comes to an end, and gives the result. -/
def Ends (turn : σ → Turn σ ρ) (start : σ) (result : ρ) : Prop :=
  ∃ last, Visits turn start last ∧ turn last = .done result

theorem Visits.keeps {P : σ → Prop} (h : Visits turn start state)
    (hkeep : ∀ state next, P state → turn state = .on next → P next) (hstart : P start) : P state := by
  induction h with
  | refl => exact hstart
  | tail _ hturn ih => exact hkeep _ _ ih hturn

theorem ends_iff_of_done (h : turn start = .done result) : Ends turn start other ↔ other = result := by
  constructor
  · rintro ⟨last, hvisits, hlast⟩
    rcases hvisits.cases_head with rfl | ⟨next, hnext, -⟩
    · rw [h] at hlast
      cases hlast
      rfl
    · rw [h] at hnext
      cases hnext
  · rintro rfl
    exact ⟨start, .refl, h⟩

theorem ends_iff_of_on (h : turn start = .on next) : Ends turn start result ↔ Ends turn next result := by
  constructor
  · rintro ⟨last, hvisits, hlast⟩
    rcases hvisits.cases_head with rfl | ⟨state, hstate, hrest⟩
    · rw [h] at hlast
      cases hlast
    · rw [h] at hstate
      cases hstate
      exact ⟨last, hrest, hlast⟩
  · rintro ⟨last, hvisits, hlast⟩
    exact ⟨last, .head h hvisits, hlast⟩

end Loops

end LayeredConfig
