import LayeredConfig.Proofs.Typed.Dict

/-! The reader writes the entries of every dictionary one by one, so their keys come out in order. -/

namespace LayeredConfig.Typed.Reader

theorem ordered_bare (word : Text) : (bare word).Ordered := by
  rw [bare]
  generalize (if '.' ∈ word then Decimal.readBinary64? word else none) = float?
  cases float? with
  | some x => trivial
  | none =>
      cases Decimal.readInt? word with
      | none => trivial
      | some n =>
          dsimp only
          split
          · trivial
          · split <;> trivial

mutual

theorem ordered_value? : ∀ {fuel : Nat} {t rest : Text} {value : Value}, value? fuel t = some (value, rest) →
    value.Ordered
  | 0, _, _, _, h => by
      rw [value?] at h
      cases h
  | fuel + 1, t, rest, value, h => by
      rw [value?] at h
      obtain ⟨⟨read, after⟩, hread, heq⟩ := Option.map_eq_some_iff.1 h
      cases heq
      split at hread
      · cases hread
        trivial
      · cases hread
        trivial
      · split at hread
        · obtain ⟨⟨entries, more⟩, hentries, heq⟩ := Option.map_eq_some_iff.1 hread
          cases heq
          exact Dict.ordered_ofList (ordered_entries? hentries)
        · obtain ⟨⟨items, more⟩, -, heq⟩ := Option.map_eq_some_iff.1 hread
          cases heq
          trivial
        · obtain ⟨⟨text, more⟩, -, heq⟩ := Option.map_eq_some_iff.1 hread
          cases heq
          trivial
        · cases hread
          trivial
        · cases hread
        · cases hread
          exact ordered_bare _

theorem ordered_entries? : ∀ {fuel : Nat} {t rest : Text} {entries : List (Text × Value)},
    entries? fuel t = some (entries, rest) → ∀ entry ∈ entries, entry.2.Ordered
  | 0, _, _, _, h => by
      rw [entries?] at h
      cases h
  | fuel + 1, t, rest, entries, h => by
      rw [entries?] at h
      split at h
      · cases h
        exact List.forall_mem_nil _
      · simp only [Option.bind_eq_bind, Option.bind_eq_some_iff] at h
        obtain ⟨⟨key, afterKey⟩, -, afterSign, -, ⟨value, afterValue⟩, hvalue, h⟩ := h
        dsimp only at h
        split at h
        · simp only [Option.bind_eq_some_iff] at h
          obtain ⟨⟨others, more⟩, hothers, heq⟩ := h
          cases heq
          exact List.forall_mem_cons.2 ⟨ordered_value? hvalue, ordered_entries? hothers⟩
        · simp only [Option.bind_eq_some_iff] at h
          obtain ⟨more, -, heq⟩ := h
          cases heq
          exact List.forall_mem_singleton.2 (ordered_value? hvalue)

end

theorem ordered_read (raw : Text) : (read raw).Ordered := by
  rw [read]
  split
  · rename_i value hvalue
    exact ordered_value? hvalue
  · trivial

end LayeredConfig.Typed.Reader
