import LayeredConfig.OrderedMap
import Mathlib.Data.List.Perm.Subperm

/-! Ordered maps through their look-ups. Distinct keys make an entry and an answer the same thing, and
two maps that compare equal give the same answers whatever the order of their entries. -/

namespace LayeredConfig.OrderedMap

variable {α : Type}

theorem mem_of_lookup {entries : List (Text × α)} {key : Text} {value : α}
    (h : entries.lookup key = some value) : (key, value) ∈ entries := by
  obtain ⟨_, _, heq, _⟩ := List.lookup_eq_some_iff.1 h
  rw [heq]
  exact List.mem_append_right _ List.mem_cons_self

theorem lookup_of_mem {entries : List (Text × α)} {key : Text} {value : α}
    (hnodup : (entries.map Prod.fst).Nodup) (h : (key, value) ∈ entries) :
    entries.lookup key = some value := by
  induction entries with
  | nil => cases h
  | cons entry entries ih =>
      obtain ⟨k, v⟩ := entry
      rw [List.map_cons, List.nodup_cons] at hnodup
      rw [List.lookup_cons]
      rcases List.mem_cons.1 h with heq | hmem
      · cases heq
        rw [beq_self_eq_true]
      · have hne : key ≠ k := by
          rintro rfl
          exact hnodup.1 (List.mem_map.2 ⟨(key, value), hmem, rfl⟩)
        rw [beq_eq_false_iff_ne.2 hne]
        exact ih hnodup.2 hmem

theorem get?_eq_some_iff {m : OrderedMap α} {key : Text} {value : α} :
    m.get? key = some value ↔ (key, value) ∈ m.entries :=
  ⟨mem_of_lookup, lookup_of_mem m.nodup⟩

theorem exists_get?_of_mem_keys {m : OrderedMap α} {key : Text} (h : key ∈ m.keys) :
    ∃ value, m.get? key = some value := by
  obtain ⟨⟨_, value⟩, hmem, rfl⟩ := List.mem_map.1 h
  exact ⟨value, get?_eq_some_iff.2 hmem⟩

/-- Looking up commutes with a change of the values that may read the key. -/
theorem lookup_map {β : Type} (f : Text → α → β) (entries : List (Text × α)) (key : Text) :
    (entries.map fun entry => (entry.1, f entry.1 entry.2)).lookup key =
      (entries.lookup key).map (f key) := by
  induction entries with
  | nil => rfl
  | cons entry entries ih =>
      rw [List.map_cons, List.lookup_cons, List.lookup_cons, ih]
      by_cases hkey : key = entry.1
      · rw [hkey, beq_self_eq_true]
        rfl
      · rw [beq_eq_false_iff_ne.2 hkey]

theorem lookup_without {entries : List (Text × α)} {key other : Text} (h : other ≠ key) :
    (without key entries).lookup other = entries.lookup other := by
  induction entries with
  | nil => rfl
  | cons entry entries ih =>
      rw [without] at ih ⊢
      rw [List.filter_cons]
      by_cases hkey : entry.1 = key
      · rw [if_neg (by simpa using hkey), List.lookup_cons, hkey, beq_eq_false_iff_ne.2 h, ih]
      · rw [if_pos (by simpa using hkey), List.lookup_cons, List.lookup_cons, ih]

theorem lookup_eq_none_of_not_mem {entries : List (Text × α)} {key : Text} (h : key ∉ entries.map Prod.fst) :
    entries.lookup key = none := by
  cases hlookup : entries.lookup key with
  | none => rfl
  | some value => exact absurd (mem_map_fst_of_lookup hlookup) h

theorem lookup_write (key other : Text) (value : α) :
    [(key, value)].lookup other = if other = key then some value else none := by
  rw [List.lookup_cons, List.lookup_nil]
  by_cases hkey : other = key
  · rw [if_pos hkey, hkey, beq_self_eq_true]
  · rw [if_neg hkey, beq_eq_false_iff_ne.2 hkey]

theorem get?_erase (m : OrderedMap α) (key other : Text) :
    (m.erase key).get? other = if other = key then none else m.get? other := by
  rw [get?, erase]
  by_cases hkey : other = key
  · rw [if_pos hkey, hkey, lookup_eq_none_of_not_mem (key_not_mem_without key m.entries)]
  · rw [if_neg hkey, lookup_without hkey, get?]

theorem get?_put (m : OrderedMap α) (key other : Text) (value : α) :
    (m.put key value).get? other = if other = key then some value else m.get? other := by
  rw [get?, put]
  by_cases hmem : key ∈ m.entries.map Prod.fst
  · have hvalues : (m.entries.map fun entry => if entry.1 = key then (key, value) else entry) =
        m.entries.map fun entry => (entry.1, if entry.1 = key then value else entry.2) := by
      apply List.map_congr_left
      intro entry _
      by_cases hkey : entry.1 = key <;> simp [hkey]
    obtain ⟨held, hheld⟩ := exists_get?_of_mem_keys hmem
    simp only [if_pos hmem, hvalues]
    rw [lookup_map fun k v => if k = key then value else v]
    by_cases hkey : other = key
    · rw [if_pos hkey, hkey, ← get?, hheld, Option.map_some, if_pos rfl]
    · simp only [if_neg hkey, Option.map_id']
      rfl
  · simp only [if_neg hmem]
    rw [List.lookup_append, lookup_write]
    by_cases hkey : other = key
    · rw [if_pos hkey, if_pos hkey, hkey, lookup_eq_none_of_not_mem hmem, Option.none_or]
    · rw [if_neg hkey, if_neg hkey, Option.or_none, get?]

theorem get?_eq_of_sameContent [DecidableEq α] {a b : OrderedMap α} (h : a.sameContent b = true)
    (key : Text) : a.get? key = b.get? key := by
  obtain ⟨hsize, hall⟩ := (Bool.and_eq_true _ _).mp h
  have hanswers : ∀ k v, (k, v) ∈ a.entries → b.get? k = some v := fun k v hmem =>
    beq_iff_eq.1 (List.all_eq_true.1 hall (k, v) hmem)
  have hsubset : a.keys ⊆ b.keys := by
    intro k hk
    obtain ⟨⟨_, v⟩, hmem, rfl⟩ := List.mem_map.1 hk
    exact mem_keys_of_get? (hanswers _ v hmem)
  -- as many keys on both sides, so the second map has no others
  have hlength : b.keys.length ≤ a.keys.length := by
    rw [keys, keys, List.length_map, List.length_map]
    exact Nat.le_of_eq (beq_iff_eq.1 hsize).symm
  have hperm := (List.subperm_of_subset a.nodup hsubset).perm_of_length_le hlength
  cases hb : b.get? key with
  | none =>
      cases ha : a.get? key with
      | none => rfl
      | some v => rw [hanswers key v (mem_of_lookup ha)] at hb; cases hb
  | some v =>
      obtain ⟨w, ha⟩ := exists_get?_of_mem_keys (hperm.mem_iff.2 (mem_keys_of_get? hb))
      rw [ha, ← hb, hanswers key w (mem_of_lookup ha)]

end LayeredConfig.OrderedMap
