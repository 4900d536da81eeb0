import LayeredConfig.Proofs.OrderedMap
import Mathlib.Data.List.Dedup

/-! What a map keeps of a row of writes. Every write goes to the end and drops what its key had before,
so the entries of the map are the writes whose key is not written again, in the order in which they were
made; and a look-up gives the value of the last write of the key. -/

namespace LayeredConfig.OrderedMap

variable {α : Type}

/-- The writes whose key is not written again later. -/
def lastWrites : List (Text × α) → List (Text × α)
  | [] => []
  | entry :: rest => if entry.1 ∈ rest.map Prod.fst then lastWrites rest else entry :: lastWrites rest

/-- The entries whose keys the writes leave alone. -/
def unwritten (entries writes : List (Text × α)) : List (Text × α) :=
  entries.filter fun entry => entry.1 ∉ writes.map Prod.fst

section Writes

variable {m : OrderedMap α} {entries writes : List (Text × α)}

theorem lastWrites_of_nodup (h : (entries.map Prod.fst).Nodup) : lastWrites entries = entries := by
  induction entries with
  | nil => rfl
  | cons entry entries ih =>
      obtain ⟨hfresh, hrest⟩ := List.nodup_cons.1 h
      rw [lastWrites, if_neg hfresh, ih hrest]

/-- Later writes take those with the same keys out of the earlier ones, and stand after the others. -/
theorem lastWrites_append :
    lastWrites (entries ++ writes) = unwritten (lastWrites entries) writes ++ lastWrites writes := by
  induction entries with
  | nil => rfl
  | cons entry entries ih =>
      rw [List.cons_append, lastWrites, lastWrites, ih, List.map_append]
      by_cases hentries : entry.1 ∈ entries.map Prod.fst
      · rw [if_pos hentries, if_pos (List.mem_append_left _ hentries)]
      · rw [if_neg hentries, unwritten, unwritten, List.filter_cons]
        by_cases hwrites : entry.1 ∈ writes.map Prod.fst
        · rw [if_pos (List.mem_append_right _ hwrites), if_neg (by simpa using hwrites)]
        · have hboth : entry.1 ∉ entries.map Prod.fst ++ writes.map Prod.fst :=
            fun hmem => (List.mem_append.1 hmem).elim hentries hwrites
          rw [if_neg hboth, if_pos (by simpa using hwrites), List.cons_append]

theorem unwritten_without (key : Text) (value : α) :
    unwritten (without key entries) writes = unwritten entries ((key, value) :: writes) := by
  rw [unwritten, unwritten, without, List.filter_filter]
  apply List.filter_congr
  intro entry _
  by_cases hkey : entry.1 = key <;> simp [hkey]

/-- Writing in turn leaves the entries with other keys in place, and the last writes after them. -/
theorem entries_extend (m : OrderedMap α) (writes : List (Text × α)) :
    (m.extend writes).entries = unwritten m.entries writes ++ lastWrites writes := by
  induction writes generalizing m with
  | nil => simp [extend, unwritten, lastWrites]
  | cons write writes ih =>
      obtain ⟨key, value⟩ := write
      have hfirst : unwritten [(key, value)] writes ++ lastWrites writes =
          lastWrites ((key, value) :: writes) := by
        rw [unwritten, List.filter_cons, List.filter_nil, lastWrites]
        by_cases hkey : key ∈ writes.map Prod.fst
        · rw [if_pos hkey, if_neg (by simpa using hkey), List.nil_append]
        · rw [if_neg hkey, if_pos (by simpa using hkey), List.singleton_append]
      calc (m.extend ((key, value) :: writes)).entries
          = unwritten (m.insert key value).entries writes ++ lastWrites writes := ih (m.insert key value)
        _ = unwritten (without key m.entries) writes ++
              (unwritten [(key, value)] writes ++ lastWrites writes) := by
            rw [insert, unwritten, List.filter_append, List.append_assoc]
            rfl
        _ = unwritten m.entries ((key, value) :: writes) ++ lastWrites ((key, value) :: writes) := by
            rw [hfirst, unwritten_without]

/-- A map that holds the last writes of a row holds those of any longer row once the rest is written. -/
theorem entries_extend_of_lastWrites (h : m.entries = lastWrites entries) (writes : List (Text × α)) :
    (m.extend writes).entries = lastWrites (entries ++ writes) := by
  rw [entries_extend, h, lastWrites_append]

theorem eq_of_entries {m n : OrderedMap α} (h : m.entries = n.entries) : m = n := by
  cases m
  cases n
  cases h
  rfl

theorem extend_append (m : OrderedMap α) (entries writes : List (Text × α)) :
    m.extend (entries ++ writes) = (m.extend entries).extend writes :=
  List.foldl_append

theorem lastWrites_eq_self_iff : lastWrites entries = entries ↔ (entries.map Prod.fst).Nodup := by
  refine ⟨fun h => ?_, lastWrites_of_nodup⟩
  have hmap : (ofList entries).entries = entries := (entries_extend empty entries).trans h
  rw [← hmap]
  exact (ofList entries).nodup

theorem ofList_entries (m : OrderedMap α) : ofList m.entries = m :=
  eq_of_entries ((entries_extend empty m.entries).trans (lastWrites_of_nodup m.nodup))

end Writes

/-! ### Repeated rows -/

section Repeated

variable {entries writes : List (Text × α)}

/-- A write leaves no trace when its key is written again. -/
theorem extend_insert_of_mem {key : Text} (h : key ∈ writes.map Prod.fst) (m : OrderedMap α) (value : α) :
    (m.insert key value).extend writes = m.extend writes := by
  have hkept : unwritten (without key m.entries ++ [(key, value)]) writes = unwritten m.entries writes := by
    rw [unwritten, List.filter_append, List.filter_cons_of_neg (by simpa using h), List.filter_nil,
      List.append_nil, without, List.filter_filter, unwritten]
    apply List.filter_congr
    intro entry _
    by_cases hkey : entry.1 = key <;> simp [hkey, h]
  apply eq_of_entries
  rw [entries_extend, entries_extend, insert, hkept]

theorem extend_append_of_subset (h : ∀ entry ∈ entries, entry.1 ∈ writes.map Prod.fst) (m : OrderedMap α) :
    m.extend (entries ++ writes) = m.extend writes := by
  induction entries generalizing m with
  | nil => rfl
  | cons entry entries ih =>
      obtain ⟨hentry, hrest⟩ := List.forall_mem_cons.1 h
      calc m.extend (entry :: entries ++ writes)
          = (m.insert entry.1 entry.2).extend (entries ++ writes) := rfl
        _ = (m.insert entry.1 entry.2).extend writes := ih hrest _
        _ = m.extend writes := extend_insert_of_mem hentry m entry.2

/-- Of rows that are written more than once only the last time counts, whatever is written in between. -/
theorem extend_flatMap_dedup {β : Type} [DecidableEq β] (row : β → List (Text × α)) (names : List β)
    (m : OrderedMap α) : m.extend (names.dedup.flatMap row) = m.extend (names.flatMap row) := by
  induction names generalizing m with
  | nil => rfl
  | cons name names ih =>
      rw [List.flatMap_cons]
      by_cases hagain : name ∈ names
      · have hcovered : ∀ entry ∈ row name, entry.1 ∈ (names.flatMap row).map Prod.fst :=
          fun entry hmem => List.mem_map_of_mem (List.mem_flatMap.2 ⟨name, hagain, hmem⟩)
        rw [List.dedup_cons_of_mem hagain, ih, extend_append_of_subset hcovered]
      · rw [List.dedup_cons_of_notMem hagain, List.flatMap_cons, extend_append, extend_append, ih]

end Repeated

/-! ### Look-ups -/

section Lookups

theorem get?_insert (m : OrderedMap α) (key other : Text) (value : α) :
    (m.insert key value).get? other = if other = key then some value else m.get? other := by
  rw [get?, insert, List.lookup_append, lookup_write]
  by_cases hkey : other = key
  · rw [if_pos hkey, if_pos hkey, hkey, lookup_eq_none_of_not_mem (key_not_mem_without key m.entries),
      Option.none_or]
  · rw [if_neg hkey, if_neg hkey, lookup_without hkey, get?, Option.or_none]

/-- The last write of a key tells its value, and what was there before only when there is none. -/
theorem get?_extend (m : OrderedMap α) (writes : List (Text × α)) (key : Text) :
    (m.extend writes).get? key = (writes.reverse.lookup key).or (m.get? key) := by
  induction writes generalizing m with
  | nil => rfl
  | cons write writes ih =>
      obtain ⟨other, value⟩ := write
      rw [List.reverse_cons, List.lookup_append, lookup_write, Option.or_assoc]
      calc (m.extend ((other, value) :: writes)).get? key
          = (writes.reverse.lookup key).or ((m.insert other value).get? key) := ih (m.insert other value)
        _ = (writes.reverse.lookup key).or ((if key = other then some value else none).or (m.get? key)) := by
            rw [get?_insert]
            split <;> rfl

/-- Of rows that are written one after another, the last one that has the key tells its value. -/
theorem get?_ofList_flatten (rows : List (List (Text × α))) (key : Text) :
    (ofList rows.flatten).get? key = rows.reverse.findSome? fun row => row.reverse.lookup key := by
  have hlast : (ofList rows.flatten).get? key = rows.flatten.reverse.lookup key := by
    rw [ofList, get?_extend]
    exact Option.or_none
  rw [hlast]
  clear hlast
  induction rows with
  | nil => rfl
  | cons row rows ih =>
      rw [List.flatten_cons, List.reverse_append, List.lookup_append, ih, List.reverse_cons,
        List.findSome?_append, List.findSome?_singleton]

end Lookups

end LayeredConfig.OrderedMap
