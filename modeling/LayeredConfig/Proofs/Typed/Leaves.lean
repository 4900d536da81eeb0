import LayeredConfig.Proofs.Typed.Dict
import Mathlib.Data.List.Infix

/-! Values as assignments of leaves to paths. Writing a value over another keeps those of the old leaves whose
path is neither the beginning nor a continuation of a new path, and brings all the new ones. Where no
dictionary is empty, the leaves tell the value. -/

namespace LayeredConfig.Typed

/-- The leaves that a value has, with the keys that lead to them. -/
inductive Value.HasLeaf : Value → List Text → Value → Prop
  | here {leaf : Value} (h : leaf.IsLeaf) : HasLeaf leaf [] leaf
  | under {entries : Dict} {key : Text} {value leaf : Value} {path : List Text}
      (hget : entries.get? key = some value) (h : HasLeaf value path leaf) :
      HasLeaf (.dict entries) (key :: path) leaf

def Dict.isEmpty : Dict → Bool
  | .nil => true
  | .cons .. => false

mutual

/-- No empty dictionary is reached through dictionaries. -/
def Value.full : Value → Bool
  | .dict entries => !entries.isEmpty && entries.full
  | _ => true

def Dict.full : Dict → Bool
  | .nil => true
  | .cons _ value rest => value.full && rest.full

end

/-- One path is the other, or leads to it. -/
def Comparable (p q : List Text) : Prop := p <+: q ∨ q <+: p

instance (p q : List Text) : Decidable (Comparable p q) := inferInstanceAs (Decidable (p <+: q ∨ q <+: p))

section Comparable

variable {p q : List Text}

theorem Comparable.symm (h : Comparable p q) : Comparable q p := Or.symm h

theorem comparable_nil (q : List Text) : Comparable [] q := .inl List.nil_prefix

theorem comparable_cons_iff {key other : Text} :
    Comparable (key :: p) (other :: q) ↔ key = other ∧ Comparable p q := by
  rw [Comparable, Comparable, List.cons_prefix_cons, List.cons_prefix_cons, @eq_comm _ other]
  exact and_or_left.symm

end Comparable

/-! ### Leaves of values -/

section Leaves

variable {entries : Dict} {value leaf : Value} {path : List Text}

theorem isLeaf_or_dict (value : Value) : value.IsLeaf ∨ ∃ entries, value = .dict entries := by
  by_cases h : ∃ entries, value = .dict entries
  · exact .inr h
  · exact .inl fun entries heq => h ⟨entries, heq⟩

theorem not_isLeaf_dict : ¬ (Value.dict entries).IsLeaf := fun h => h entries rfl

theorem Value.IsLeaf.hasLeaf_iff (h : value.IsLeaf) : value.HasLeaf path leaf ↔ path = [] ∧ leaf = value := by
  constructor
  · intro hleaf
    cases hleaf with
    | here => exact ⟨rfl, rfl⟩
    | under => exact absurd rfl (h _)
  · rintro ⟨rfl, rfl⟩
    exact .here h

theorem not_hasLeaf_dict_nil : ¬ (Value.dict entries).HasLeaf [] leaf := by
  intro h
  cases h with
  | here h => exact not_isLeaf_dict h

theorem hasLeaf_dict_cons_iff {key : Text} :
    (Value.dict entries).HasLeaf (key :: path) leaf ↔
      ∃ value, entries.get? key = some value ∧ value.HasLeaf path leaf := by
  constructor
  · intro h
    cases h with
    | under hget h => exact ⟨_, hget, h⟩
  · rintro ⟨value, hget, h⟩
    exact .under hget h

/-- The values under other keys do not matter to a path below a key. -/
theorem forall_not_comparable_dict_iff {key : Text} :
    (∀ other leaf, (Value.dict entries).HasLeaf other leaf → ¬ Comparable (key :: path) other) ↔
      ∀ value, entries.get? key = some value → ∀ other leaf, value.HasLeaf other leaf → ¬ Comparable path other := by
  constructor
  · intro h value hget other leaf hleaf hcomparable
    exact h (key :: other) leaf (.under hget hleaf) (comparable_cons_iff.2 ⟨rfl, hcomparable⟩)
  · intro h other leaf hleaf hcomparable
    cases hleaf with
    | here hleaf => exact not_isLeaf_dict hleaf
    | under hget hleaf =>
        obtain ⟨rfl, hrest⟩ := comparable_cons_iff.1 hcomparable
        exact h _ hget _ leaf hleaf hrest

end Leaves

/-! ### Values over values -/

section Over

variable {value : Value} {existing? : Option Value}

theorem over_of_isLeaf (h : value.IsLeaf) : value.over existing? = value := by
  cases value with
  | dict entries => exact absurd h not_isLeaf_dict
  | _ => rw [Value.over]; exact h

/-- A dictionary is united with one that is there, and replaces everything else. -/
theorem over_dict_cases (incoming : Dict) (existing? : Option Value) :
    (∃ existing, existing? = some (.dict existing) ∧
      (Value.dict incoming).over existing? = .dict (existing.merge incoming)) ∨
    (∀ existing, existing? = some existing → existing.IsLeaf) ∧
      (Value.dict incoming).over existing? = .dict incoming := by
  by_cases h : ∃ existing, existing? = some (.dict existing)
  · obtain ⟨existing, rfl⟩ := h
    exact .inl ⟨existing, rfl, by rw [Value.over]⟩
  · refine .inr ⟨fun existing hexisting entries hdict => h ⟨entries, hdict ▸ hexisting⟩, ?_⟩
    rw [Value.over]
    exact fun existing hexisting => h ⟨existing, hexisting⟩

end Over

/-! ### Values without empty dictionaries -/

section Full

variable {key : Text} {value : Value}

theorem full_dict_iff {entries : Dict} :
    (Value.dict entries).full = true ↔ entries ≠ .nil ∧ entries.full = true := by
  rw [Value.full, Bool.and_eq_true]
  cases entries <;> simp [Dict.isEmpty]

theorem Dict.full_of_get? : ∀ {entries : Dict}, entries.full = true → entries.get? key = some value →
    value.full = true
  | .nil, _, hget => by simp at hget
  | .cons _ _ _, hfull, hget => by
      rw [Dict.full, Bool.and_eq_true] at hfull
      rcases eq_or_get?_of_get?_cons hget with rfl | hget
      · exact hfull.1
      · exact full_of_get? hfull.2 hget

theorem Dict.full_insert (hvalue : value.full = true) : ∀ {entries : Dict}, entries.full = true →
    (entries.insert key value).full = true
  | .nil, _ => by rw [Dict.insert, Dict.full, hvalue]; rfl
  | .cons k v rest, hfull => by
      have hparts : v.full = true ∧ rest.full = true := by
        rwa [Dict.full, Bool.and_eq_true] at hfull
      rw [Dict.insert]
      split
      · rw [Dict.full, hvalue, hparts.2]
        rfl
      · split
        · rw [Dict.full, hvalue, hfull]
          rfl
        · rw [Dict.full, hparts.1, full_insert hvalue hparts.2]
          rfl

theorem Dict.insert_ne_nil (key : Text) (value : Value) (entries : Dict) : entries.insert key value ≠ .nil := by
  intro h
  have hget := Dict.get?_insert key key value entries
  rw [h, if_pos rfl] at hget
  cases hget

theorem Dict.merge_ne_nil : ∀ (incoming : Dict) {existing : Dict}, existing ≠ .nil → existing.merge incoming ≠ .nil
  | .nil, _, h => h
  | .cons _ _ rest, _, _ => merge_ne_nil rest (insert_ne_nil _ _ _)

/-- Without empty dictionaries there is always a leaf. -/
theorem exists_hasLeaf (value : Value) (h : value.full = true) : ∃ path leaf, value.HasLeaf path leaf := by
  induction value using Value.dicts_induction with
  | leaf value hleaf => exact ⟨[], value, .here hleaf⟩
  | dict entries ih =>
      obtain ⟨hne, hfull⟩ := full_dict_iff.1 h
      cases entries with
      | nil => exact absurd rfl hne
      | cons k v rest =>
          have hget : (Dict.cons k v rest).get? k = some v := by rw [Dict.get?_cons, if_pos rfl]
          obtain ⟨path, leaf, hleaf⟩ := ih k v hget (Dict.full_of_get? hfull hget)
          exact ⟨k :: path, leaf, .under hget hleaf⟩

end Full

/-- Keys are in order and no dictionary is empty, wherever dictionaries lead. -/
def Value.Tidy (value : Value) : Prop := value.Ordered ∧ value.full = true

/-- The same of a dictionary that may itself be empty. -/
def Dict.Tidy (entries : Dict) : Prop := entries.Ordered ∧ entries.full = true

section Tidy

variable {entries : Dict} {key : Text} {value : Value}

theorem tidy_dict_iff : (Value.dict entries).Tidy ↔ entries ≠ .nil ∧ entries.Tidy := by
  rw [Value.Tidy, full_dict_iff, Value.Ordered, Dict.Tidy]
  exact and_left_comm

theorem Dict.Tidy.of_get? (h : entries.Tidy) (hget : entries.get? key = some value) : value.Tidy :=
  ⟨h.1.of_get? hget, Dict.full_of_get? h.2 hget⟩

theorem Dict.Tidy.insert (h : entries.Tidy) (hvalue : value.Tidy) : (entries.insert key value).Tidy :=
  ⟨h.1.insert hvalue.1, Dict.full_insert hvalue.2 h.2⟩

theorem Dict.Tidy.cons {rest : Dict} (h : (Dict.cons key value rest).Tidy) : value.Tidy ∧ rest.Tidy := by
  obtain ⟨⟨_, hvalue, hrest⟩, hfull⟩ := h
  rw [Dict.full, Bool.and_eq_true] at hfull
  exact ⟨⟨hvalue, hfull.1⟩, hrest, hfull.2⟩

mutual

theorem Value.Tidy.over : ∀ {value : Value} {existing? : Option Value}, value.Tidy →
    (∀ existing, existing? = some existing → existing.Tidy) → (value.over existing?).Tidy
  | .dict incoming, existing?, h, hexisting => by
      rcases over_dict_cases incoming existing? with ⟨existing, hthere, heq⟩ | ⟨-, heq⟩
      · obtain ⟨hne, hexisting⟩ := tidy_dict_iff.1 (hexisting _ hthere)
        rw [heq]
        exact tidy_dict_iff.2 ⟨Dict.merge_ne_nil incoming hne, hexisting.merge (tidy_dict_iff.1 h).2⟩
      · rw [heq]
        exact h
  | .text _, _, h, _ | .bool _, _, h, _ | .char _, _, h, _ | .unsigned _, _, h, _ | .signed _, _, h, _
  | .float _, _, h, _ | .array _, _, h, _ => by
      rw [over_of_isLeaf fun _ heq => by cases heq]
      exact h

theorem Dict.Tidy.merge : ∀ {incoming existing : Dict}, existing.Tidy → incoming.Tidy →
    (existing.merge incoming).Tidy
  | .nil, _, hexisting, _ => hexisting
  | .cons _ _ _, _, hexisting, hincoming => by
      obtain ⟨hvalue, hrest⟩ := hincoming.cons
      rw [Dict.merge]
      exact (hexisting.insert (hvalue.over fun _ hget => hexisting.of_get? hget)).merge hrest

end

end Tidy

/-! ### What writing does to the leaves -/

/-- A value over another has all its own leaves, and those of the other that no own path is comparable with. -/
theorem hasLeaf_over (value : Value) (h : value.Tidy) (existing? : Option Value) (path : List Text) (leaf : Value) :
    (value.over existing?).HasLeaf path leaf ↔
      value.HasLeaf path leaf ∨
        (∃ existing, existing? = some existing ∧ existing.HasLeaf path leaf) ∧
          ∀ other new, value.HasLeaf other new → ¬ Comparable path other := by
  induction value using Value.dicts_induction generalizing existing? path leaf with
  | leaf value hvalue =>
      rw [over_of_isLeaf hvalue]
      refine ⟨.inl, fun hcases => hcases.elim id fun ⟨_, hapart⟩ => ?_⟩
      exact absurd (comparable_nil path).symm (hapart [] value (.here hvalue))
  | dict incoming ih =>
      obtain ⟨hne, hincoming⟩ := tidy_dict_iff.1 h
      rcases over_dict_cases incoming existing? with ⟨existing, rfl, heq⟩ | ⟨hleaf, heq⟩
      · rw [heq]
        cases path with
        | nil => simp [not_hasLeaf_dict_nil]
        | cons key path =>
            simp only [Option.some.injEq, exists_eq_left', hasLeaf_dict_cons_iff,
              forall_not_comparable_dict_iff, Dict.get?_merge existing hincoming.1]
            cases hget : incoming.get? key with
            | none => simp
            | some value =>
                have hover := ih key value hget (hincoming.of_get? hget) (existing.get? key) path leaf
                simpa using hover
      · rw [heq]
        refine ⟨.inl, fun hcases => hcases.elim id fun ⟨⟨existing, hthere, hold⟩, hapart⟩ => ?_⟩
        -- the old value was one leaf at the place itself, and the new dictionary has a leaf below it
        obtain ⟨rfl, -⟩ := (hleaf existing hthere).hasLeaf_iff.1 hold
        obtain ⟨other, new, hnew⟩ := exists_hasLeaf (.dict incoming) h.2
        exact absurd (comparable_nil other) (hapart other new hnew)

theorem hasLeaf_merge {incoming : Dict} (h : (Value.dict incoming).Tidy) (existing : Dict) (path : List Text)
    (leaf : Value) :
    (Value.dict (existing.merge incoming)).HasLeaf path leaf ↔
      (Value.dict incoming).HasLeaf path leaf ∨
        (Value.dict existing).HasLeaf path leaf ∧
          ∀ other new, (Value.dict incoming).HasLeaf other new → ¬ Comparable path other := by
  have hover := hasLeaf_over (.dict incoming) h (some (.dict existing)) path leaf
  simpa [Value.over] using hover

/-! ### Leaves tell the value -/

section Extensionality

variable {a b : Dict}

/-- Dictionaries with the same leaves are equal when this is known of their values. -/
theorem eq_of_hasLeaf_of_values (ha : a.Tidy) (hb : b.Tidy)
    (hleaves : ∀ path leaf, (Value.dict a).HasLeaf path leaf ↔ (Value.dict b).HasLeaf path leaf)
    (hvalues : ∀ key value, a.get? key = some value → ∀ other : Value, other.Tidy →
      (∀ path leaf, value.HasLeaf path leaf ↔ other.HasLeaf path leaf) → value = other) : a = b := by
  apply Dict.eq_of_get? ha.1 hb.1
  intro key
  have hbelow : ∀ path leaf, (∃ value, a.get? key = some value ∧ value.HasLeaf path leaf) ↔
      ∃ value, b.get? key = some value ∧ value.HasLeaf path leaf := by
    intro path leaf
    rw [← hasLeaf_dict_cons_iff, ← hasLeaf_dict_cons_iff]
    exact hleaves (key :: path) leaf
  cases hget : a.get? key with
  | none =>
      cases hget' : b.get? key with
      | none => rfl
      | some value =>
          obtain ⟨path, leaf, hleaf⟩ := exists_hasLeaf value (hb.of_get? hget').2
          obtain ⟨_, hnone, -⟩ := (hbelow path leaf).2 ⟨value, hget', hleaf⟩
          rw [hget] at hnone
          cases hnone
  | some value =>
      obtain ⟨path, leaf, hleaf⟩ := exists_hasLeaf value (ha.of_get? hget).2
      obtain ⟨other, hget', -⟩ := (hbelow path leaf).1 ⟨value, hget, hleaf⟩
      rw [hget', hvalues key value hget other (hb.of_get? hget')]
      intro path leaf
      simpa [hget, hget'] using hbelow path leaf

theorem Value.eq_of_hasLeaf (a : Value) (ha : a.Tidy) (b : Value) (hb : b.Tidy)
    (hleaves : ∀ path leaf, a.HasLeaf path leaf ↔ b.HasLeaf path leaf) : a = b := by
  induction a using Value.dicts_induction generalizing b with
  | leaf a hleaf =>
      cases (hleaves [] a).1 (.here hleaf)
      rfl
  | dict a ih =>
      rcases isLeaf_or_dict b with hleaf | ⟨b, rfl⟩
      · exact absurd ((hleaves [] b).2 (.here hleaf)) not_hasLeaf_dict_nil
      · have hvalues : ∀ key value, a.get? key = some value → ∀ other : Value, other.Tidy →
            (∀ path leaf, value.HasLeaf path leaf ↔ other.HasLeaf path leaf) → value = other :=
          fun key value hget other hother =>
            ih key value hget ((tidy_dict_iff.1 ha).2.of_get? hget) other hother
        rw [eq_of_hasLeaf_of_values (tidy_dict_iff.1 ha).2 (tidy_dict_iff.1 hb).2 hleaves hvalues]

theorem Dict.eq_of_hasLeaf (ha : a.Tidy) (hb : b.Tidy)
    (hleaves : ∀ path leaf, (Value.dict a).HasLeaf path leaf ↔ (Value.dict b).HasLeaf path leaf) : a = b :=
  eq_of_hasLeaf_of_values ha hb hleaves fun _ value hget other => value.eq_of_hasLeaf (ha.of_get? hget) other

end Extensionality

end LayeredConfig.Typed
