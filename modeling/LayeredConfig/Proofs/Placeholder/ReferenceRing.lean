import Mathlib.Data.Fin.Basic
import Mathlib.Data.List.FinRange
import LayeredConfig.Proofs.Placeholder.Bare
import LayeredConfig.Proofs.Placeholder.Transparency

/-! Keys that refer to each other in a ring. A resolution that enters the ring goes from each member to
the next until it meets the key it started from; that key is on the chain, so the reference is cut there
and reads as the empty text. Every member has then given its text once: the parts before the references
in the order of the walk, and the parts after them as the walk returns. -/

namespace LayeredConfig.Placeholder

/-- Keys of the map, each with a text that refers to the next one, and the last to the first. The
fallback has none of them. -/
structure ReferenceRing (scope : Scope) (n : ℕ) where
  key : Fin (n + 1) → Text
  before : Fin (n + 1) → Text
  after : Fin (n + 1) → Text
  distinct : Function.Injective key
  nonempty : ∀ i, key i ≠ []
  trimmed : ∀ i, Text.trim (key i) = key i
  bare : ∀ i, Bare (key i)
  literal_before : ∀ i, ¬opening <:+: before i
  literal_after : ∀ i, ¬opening <:+: after i
  held : ∀ i, scope.map.get? (key i) =
    some (before i ++ (opening ++ (key (i + 1) ++ '}' :: after i)))
  unanswered : ∀ i, scope.fallback (key i) = none

namespace ReferenceRing

section Positions

variable {n : ℕ}

/-- The position that many steps further around. -/
def ahead (i : Fin (n + 1)) (steps : ℕ) : Fin (n + 1) := (· + 1)^[steps] i

theorem ahead_succ (i : Fin (n + 1)) (steps : ℕ) : ahead i (steps + 1) = ahead (i + 1) steps := rfl

theorem val_ahead (i : Fin (n + 1)) (steps : ℕ) : (ahead i steps).val = (i.val + steps) % (n + 1) := by
  induction steps generalizing i with
  | zero => exact (Nat.mod_eq_of_lt i.isLt).symm
  | succ steps ih =>
      rw [ahead_succ, ih, Fin.val_add, Fin.val_one', Nat.add_mod_mod, Nat.mod_add_mod, Nat.add_assoc,
        Nat.add_comm 1 steps]

theorem ahead_val (i j : Fin (n + 1)) : ahead i j = i + j :=
  Fin.ext ((val_ahead i j).trans (Fin.val_add i j).symm)

theorem ahead_around (i : Fin (n + 1)) : ahead i (n + 1) = i := by
  apply Fin.ext
  rw [val_ahead, Nat.add_mod_right, Nat.mod_eq_of_lt i.isLt]

theorem ahead_ne (i : Fin (n + 1)) {steps : ℕ} (hpos : 0 < steps) (hle : steps ≤ n) : ahead i steps ≠ i := by
  intro heq
  have hval := congrArg Fin.val heq
  rw [val_ahead] at hval
  have hlt := i.isLt
  rcases Nat.lt_or_ge (i.val + steps) (n + 1) with hinside | hpast
  · rw [Nat.mod_eq_of_lt hinside] at hval
    omega
  · rw [Nat.mod_eq_sub_mod hpast, Nat.mod_eq_of_lt (by omega)] at hval
    omega

end Positions

section Walk

variable {scope : Scope} {n : ℕ} (ring : ReferenceRing scope n)

/-- What that many members give, from a position on: each encloses the ones after it. -/
def unrolled (i : Fin (n + 1)) : ℕ → Text
  | 0 => []
  | steps + 1 => ring.before i ++ unrolled (i + 1) steps ++ ring.after i

theorem unrolled_eq (i : Fin (n + 1)) (steps : ℕ) :
    ring.unrolled i steps =
      ((List.range steps).flatMap fun j => ring.before (ahead i j)) ++
        (List.range steps).reverse.flatMap fun j => ring.after (ahead i j) := by
  induction steps generalizing i with
  | zero => rfl
  | succ steps ih =>
      rw [unrolled, ih, List.range_succ_eq_map, List.reverse_cons, ← List.map_reverse]
      simp only [List.flatMap_cons, List.flatMap_append, List.flatMap_map, List.flatMap_nil,
        List.append_nil, List.append_assoc, ahead_succ]
      rfl

theorem unrolled_around (i : Fin (n + 1)) :
    ring.unrolled i (n + 1) =
      ((List.finRange (n + 1)).flatMap fun j => ring.before (i + j)) ++
        (List.finRange (n + 1)).reverse.flatMap fun j => ring.after (i + j) := by
  rw [unrolled_eq, ← List.map_coe_finRange_eq_range, ← List.map_reverse]
  simp only [List.flatMap_map, ahead_val]

theorem expand_member (i : Fin (n + 1)) (chain : List Text) (memo : Memo) :
    (expand scope chain
        (ring.before i ++ (opening ++ (ring.key (i + 1) ++ '}' :: ring.after i))) memo).value =
      ring.before i ++ (find scope chain (ring.key (i + 1)) memo).value.getD [] ++ ring.after i := by
  rw [expand_reference (ring.literal_before i) (ring.bare (i + 1)) (ring.literal_after i),
    ring.trimmed (i + 1)]

/-- On a chain that the walk meets after so many steps, and not earlier, those members are unrolled. -/
theorem find_member (steps : ℕ) (i : Fin (n + 1)) (chain : List Text) (memo : Memo)
    (hsettled : memo.settled = []) (hprovisional : memo.provisional = []) (hsteps : steps ≤ n)
    (hfresh : ∀ j < steps, ring.key (ahead i j) ∉ chain) (hmet : ring.key (ahead i steps) ∈ chain) :
    (find scope chain (ring.key i) memo).value.getD [] = ring.unrolled i steps := by
  -- along the walk: each member goes on the chain, and the key at which it ends stays on it
  induction steps generalizing i chain memo with
  | zero =>
      rw [find_of_mem (ring.nonempty i) hmet, ring.unanswered i]
      rfl
  | succ steps ih =>
      have hfree : ring.key i ∉ chain := hfresh 0 (Nat.zero_lt_succ steps)
      have hfresh' : ∀ j < steps, ring.key (ahead (i + 1) j) ∉ ring.key i :: chain := by
        intro j hj hmem
        rcases List.mem_cons.1 hmem with heq | hchain
        · exact ahead_ne i (Nat.zero_lt_succ j) (by omega) (ring.distinct heq)
        · exact hfresh (j + 1) (by omega) hchain
      have hnext := ih (i + 1) (ring.key i :: chain)
        ((memo.record (.asked (ring.key i) chain)).record (.expanded (ring.key i)))
        hsettled hprovisional (by omega) hfresh' (List.mem_cons_of_mem _ hmet)
      rw [find_of_held (ring.nonempty i) hfree (by rw [hsettled]; rfl) (by rw [hprovisional]; rfl)
        (ring.held i)]
      dsimp only [Option.getD_some]
      rw [expand_member, hnext, unrolled]

end Walk

end ReferenceRing

/-- Every member of a ring resolves to the whole ring, unrolled once from there. -/
theorem resolveMap_ring {scope : Scope} {n : ℕ} (ring : ReferenceRing scope n) (i : Fin (n + 1)) :
    (resolveMap scope.map scope.fallback).get? (ring.key i) =
      some (((List.finRange (n + 1)).flatMap fun j => ring.before (i + j)) ++
        (List.finRange (n + 1)).reverse.flatMap fun j => ring.after (i + j)) := by
  have hmet : ring.key (ReferenceRing.ahead (i + 1) n) ∈ [ring.key i] :=
    List.mem_singleton.2 (congrArg ring.key (ReferenceRing.ahead_around i))
  have hfresh : ∀ j < n, ring.key (ReferenceRing.ahead (i + 1) j) ∉ [ring.key i] := fun j hj hmem =>
    ReferenceRing.ahead_ne i (Nat.zero_lt_succ j) hj (ring.distinct (List.mem_singleton.1 hmem))
  have hnext := ring.find_member n (i + 1) [ring.key i] {} rfl rfl le_rfl hfresh hmet
  rw [get?_resolveMap, ring.held i, Option.map_some, entryValue, ring.expand_member, hnext,
    ← ring.unrolled_around i, ReferenceRing.unrolled]

/-- Three keys in a ring, written between other entries and in another order. -/
def triangle : OrderedMap Text :=
  .ofList [("c".toList, "$${a}".toList), ("top".toList, "${b}".toList), ("a".toList, "<${b}>".toList),
    ("b".toList, "${c}|".toList)]

def triangleRing : ReferenceRing ⟨triangle, .silent⟩ 2 where
  key i := ["a".toList, "b".toList, "c".toList].get i
  before i := ["<".toList, [], "$".toList].get i
  after i := [">".toList, "|".toList, []].get i
  distinct := by
    unfold Function.Injective
    decide
  nonempty := by decide
  trimmed := by decide
  bare := by
    have hopen : ∀ i : Fin 3, splitOpen (["a".toList, "b".toList, "c".toList].get i) = none := by decide
    have hcolon : ∀ i : Fin 3, ':' ∉ ["a".toList, "b".toList, "c".toList].get i := by decide
    have hclose : ∀ i : Fin 3, '}' ∉ ["a".toList, "b".toList, "c".toList].get i := by decide
    exact fun i => ⟨hopen i, hcolon i, hclose i⟩
  literal_before := by decide
  literal_after := by decide
  held := by decide
  unanswered _ := rfl

theorem resolveMap_triangle :
    (resolveMap triangle .silent).get? "a".toList = some "<$|>".toList ∧
    (resolveMap triangle .silent).get? "b".toList = some "$<>|".toList ∧
    (resolveMap triangle .silent).get? "c".toList = some "$<|>".toList :=
  ⟨(resolveMap_ring triangleRing 0).trans (by decide), (resolveMap_ring triangleRing 1).trans (by decide),
    (resolveMap_ring triangleRing 2).trans (by decide)⟩

end LayeredConfig.Placeholder
