import LayeredConfig.Typed.Nesting
import Mathlib.Data.List.Nodup

/-! Dictionaries through their look-ups. Keys stand in increasing order, so that a dictionary is told by the
values that it gives to keys. Writing changes the value of one key, and uniting changes the values of
the incoming keys, each by the value that was there. -/

namespace LayeredConfig.Typed

/-- A value that is no dictionary. -/
def Value.IsLeaf (value : Value) : Prop := ∀ entries, value ≠ .dict entries

namespace Dict

def keys (dict : Dict) : List Text := dict.toList.map Prod.fst

end Dict

mutual

/-- Every dictionary that is reached through dictionaries lists its keys in increasing order. -/
def Value.Ordered : Value → Prop
  | .dict entries => entries.Ordered
  | _ => True

def Dict.Ordered : Dict → Prop
  | .nil => True
  | .cons key value rest => (∀ other ∈ rest.keys, key < other) ∧ value.Ordered ∧ rest.Ordered

end

/-! ### Look-ups -/

namespace Dict

section Lookups

variable {dict : Dict} {key other : Text} {value : Value}

@[simp]
theorem get?_nil (key : Text) : nil.get? key = none := rfl

theorem get?_cons (key other : Text) (value : Value) (rest : Dict) :
    (cons key value rest).get? other = if other = key then some value else rest.get? other := by
  rw [get?, toList, List.lookup_cons]
  by_cases hkey : other = key
  · rw [if_pos hkey, hkey, beq_self_eq_true]
  · rw [if_neg hkey, beq_eq_false_iff_ne.2 hkey]
    rfl

/-- A look-up that succeeds gives the first value, or succeeds in the rest. -/
theorem eq_or_get?_of_get?_cons {first : Value} {rest : Dict} (h : (cons key first rest).get? other = some value) :
    first = value ∨ rest.get? other = some value := by
  rw [get?_cons] at h
  by_cases hkey : other = key
  · rw [if_pos hkey] at h
    exact .inl (Option.some.inj h)
  · rw [if_neg hkey] at h
    exact .inr h

theorem get?_insert (key other : Text) (value : Value) : ∀ dict : Dict,
    (dict.insert key value).get? other = if other = key then some value else dict.get? other
  | nil => get?_cons key other value nil
  | cons k v rest => by
      rw [insert]
      by_cases hkey : key = k
      · rw [if_pos hkey, get?_cons, get?_cons, hkey]
        by_cases hother : other = k
        · rw [if_pos hother, if_pos hother]
        · rw [if_neg hother, if_neg hother, if_neg hother]
      · rw [if_neg hkey]
        by_cases hless : key < k
        · rw [if_pos hless, get?_cons]
        · rw [if_neg hless, get?_cons, get?_cons, get?_insert key other value rest]
          by_cases hother : other = k
          · rw [if_pos hother, if_neg (by rw [hother]; exact Ne.symm hkey), if_pos hother]
          · rw [if_neg hother, if_neg hother]

theorem mem_keys_iff : ∀ {dict : Dict}, key ∈ dict.keys ↔ ∃ value, dict.get? key = some value
  | nil => by simp [keys, toList]
  | cons k v rest => by
      rw [keys, toList, List.map_cons, List.mem_cons, get?_cons]
      by_cases hkey : key = k
      · simp [hkey]
      · have hrest : key ∈ rest.keys ↔ ∃ value, rest.get? key = some value := mem_keys_iff
        rw [if_neg hkey, ← hrest, keys, or_iff_right hkey]

theorem get?_eq_none_iff : dict.get? key = none ↔ key ∉ dict.keys := by
  rw [mem_keys_iff]
  cases dict.get? key <;> simp

/-- What is smaller than all keys is no key. -/
theorem get?_eq_none_of_lt (h : ∀ other ∈ dict.keys, key < other) : dict.get? key = none :=
  get?_eq_none_iff.2 fun hmem => List.lt_irrefl key (h key hmem)

theorem mem_keys_insert : other ∈ (dict.insert key value).keys ↔ other = key ∨ other ∈ dict.keys := by
  rw [mem_keys_iff, mem_keys_iff, get?_insert]
  by_cases hkey : other = key
  · simp [hkey]
  · simp [hkey]

end Lookups

/-! ### Order -/

section Order

variable {dict : Dict} {key : Text} {value : Value}

theorem Ordered.of_get? : ∀ {dict : Dict}, dict.Ordered → dict.get? key = some value → value.Ordered
  | nil, _, hget => by simp at hget
  | cons _ _ _, ⟨_, hvalue, hrest⟩, hget => by
      rcases eq_or_get?_of_get?_cons hget with rfl | hget
      · exact hvalue
      · exact hrest.of_get? hget

theorem Ordered.insert : ∀ {dict : Dict}, dict.Ordered → value.Ordered → (dict.insert key value).Ordered
  | nil, _, hvalue => ⟨List.forall_mem_nil _, hvalue, trivial⟩
  | cons k v rest, ⟨hless, hv, hrest⟩, hvalue => by
      rw [Dict.insert]
      by_cases hkey : key = k
      · rw [if_pos hkey, hkey]
        exact ⟨hless, hvalue, hrest⟩
      · rw [if_neg hkey]
        by_cases hbefore : key < k
        · rw [if_pos hbefore]
          refine ⟨List.forall_mem_cons.2 ⟨hbefore, fun other hother => ?_⟩, hvalue, hless, hv, hrest⟩
          exact List.lt_trans hbefore (hless other hother)
        · rw [if_neg hbefore]
          refine ⟨fun other hother => ?_, hv, hrest.insert hvalue⟩
          rcases mem_keys_insert.1 hother with rfl | hother
          · by_contra hafter
            exact hkey (List.le_antisymm hafter hbefore)
          · exact hless other hother

theorem ordered_ofList {entries : List (Text × Value)} (h : ∀ entry ∈ entries, entry.2.Ordered) :
    (ofList entries).Ordered := by
  have hfold : ∀ dict : Dict, dict.Ordered →
      (entries.foldl (fun dict entry => dict.insert entry.1 entry.2) dict).Ordered := by
    induction entries with
    | nil => exact fun dict hdict => hdict
    | cons entry entries ih =>
        obtain ⟨hentry, hentries⟩ := List.forall_mem_cons.1 h
        exact fun dict hdict => ih hentries (dict.insert entry.1 entry.2) (hdict.insert hentry)
  exact hfold nil trivial

/-- A dictionary is told by its look-ups. -/
theorem eq_of_get? : ∀ {a b : Dict}, a.Ordered → b.Ordered → (∀ key, a.get? key = b.get? key) → a = b
  | nil, nil, _, _, _ => rfl
  | nil, cons k v rest, _, _, h => by simpa [get?_cons] using h k
  | cons k v rest, nil, _, _, h => by simpa [get?_cons] using h k
  | cons k v rest, cons l w more, ⟨hk, _, hrest⟩, ⟨hl, _, hmore⟩, h => by
      -- each of the first keys is a key of the other dictionary, and smaller than all further ones
      have hkey : k = l := by
        by_contra hne
        have hleft : l ∈ rest.keys := by
          have hl' := h l
          rw [get?_cons, get?_cons, if_neg (Ne.symm hne), if_pos rfl] at hl'
          exact mem_keys_iff.2 ⟨w, hl'⟩
        have hright : k ∈ more.keys := by
          have hk' := h k
          rw [get?_cons, get?_cons, if_pos rfl, if_neg hne] at hk'
          exact mem_keys_iff.2 ⟨v, hk'.symm⟩
        exact List.lt_asymm (hk l hleft) (hl k hright)
      subst hkey
      have hvalue : v = w := by simpa [get?_cons] using h k
      have htail : ∀ key, rest.get? key = more.get? key := by
        intro key
        by_cases hkey : key = k
        · rw [hkey, get?_eq_none_of_lt hk, get?_eq_none_of_lt hl]
        · simpa [get?_cons, hkey] using h key
      rw [hvalue, eq_of_get? hrest hmore htail]

end Order

/-- Uniting gives every incoming key the incoming value over the one that was there. -/
theorem get?_merge : ∀ {incoming : Dict} (existing : Dict), incoming.Ordered → ∀ key,
    (existing.merge incoming).get? key =
      match incoming.get? key with
      | none => existing.get? key
      | some value => some (value.over (existing.get? key))
  | nil, existing, _, key => rfl
  | cons k v rest, existing, ⟨hless, _, hrest⟩, key => by
      rw [merge, get?_merge _ hrest, get?_insert, get?_cons]
      by_cases hkey : key = k
      · rw [hkey, get?_eq_none_of_lt hless, if_pos rfl, if_pos rfl]
      · rw [if_neg hkey, if_neg hkey]

end Dict

/-- To prove something of every value it is enough to prove it of a dictionary whose values all have it, and
of what is no dictionary. -/
@[elab_as_elim]
theorem Value.dicts_induction {P : Value → Prop} (value : Value) (leaf : ∀ value : Value, value.IsLeaf → P value)
    (dict : ∀ entries : Dict, (∀ key value, entries.get? key = some value → P value) → P (.dict entries)) :
    P value := by
  refine @Value.rec P (fun _ => True) (fun entries => ∀ key value, entries.get? key = some value → P value)
    ?text ?bool ?char ?unsigned ?signed ?float ?array ?dict trivial ?items ?nil ?cons value
  case text | bool | char | unsigned | signed | float =>
      intro content
      exact leaf _ fun _ h => by cases h
  case array =>
      intro items _
      exact leaf _ fun _ h => by cases h
  case dict => exact fun entries ih => dict entries ih
  case items => exact fun _ _ _ _ => trivial
  case nil =>
      intro key value hget
      simp at hget
  case cons =>
      intro k v rest hv hrest key value hget
      rcases Dict.eq_or_get?_of_get?_cons hget with rfl | hget
      · exact hv
      · exact hrest key value hget

end LayeredConfig.Typed
