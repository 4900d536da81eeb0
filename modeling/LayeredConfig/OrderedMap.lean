import LayeredConfig.Text

/-! Maps from texts to values that remember an order. `insert` moves a key that is written again to the end, so
that the order of the entries is the order of the last writes; `put` leaves it where it was first
written. Keys are pairwise distinct by construction. -/

namespace LayeredConfig

structure OrderedMap (α : Type) where
  entries : List (Text × α)
  nodup : (entries.map Prod.fst).Nodup

namespace OrderedMap

variable {α : Type}

instance [DecidableEq α] : DecidableEq (OrderedMap α) := fun a b =>
  decidable_of_iff (a.entries = b.entries) ⟨fun h => by cases a; cases b; cases h; rfl, fun h => h ▸ rfl⟩

def empty : OrderedMap α := ⟨[], List.nodup_nil⟩

instance : EmptyCollection (OrderedMap α) := ⟨empty⟩
instance : Inhabited (OrderedMap α) := ⟨empty⟩

def keys (m : OrderedMap α) : List Text := m.entries.map Prod.fst

def size (m : OrderedMap α) : Nat := m.entries.length

def isEmpty (m : OrderedMap α) : Bool := m.entries.isEmpty

def get? (m : OrderedMap α) (key : Text) : Option α := m.entries.lookup key

def contains (m : OrderedMap α) (key : Text) : Bool := (m.get? key).isSome

theorem mem_map_fst_of_lookup {entries : List (Text × α)} {key : Text} {value : α}
    (h : entries.lookup key = some value) : key ∈ entries.map Prod.fst := by
  induction entries with
  | nil => simp at h
  | cons entry entries ih =>
    obtain ⟨k, v⟩ := entry
    rw [List.lookup_cons] at h
    by_cases hk : key = k
    · simp [hk]
    · have : (key == k) = false := by simpa using hk
      rw [this] at h
      exact List.mem_cons_of_mem _ (ih h)

theorem mem_keys_of_get? {m : OrderedMap α} {key : Text} {value : α} (h : m.get? key = some value) :
    key ∈ m.keys :=
  mem_map_fst_of_lookup h

/-- The entries without the one for `key`. -/
def without (key : Text) (entries : List (Text × α)) : List (Text × α) :=
  entries.filter fun entry => entry.1 ≠ key

theorem key_not_mem_without (key : Text) (entries : List (Text × α)) :
    key ∉ (without key entries).map Prod.fst := by
  simp [without]

theorem nodup_without {entries : List (Text × α)} (h : (entries.map Prod.fst).Nodup) (key : Text) :
    ((without key entries).map Prod.fst).Nodup :=
  h.sublist (List.filter_sublist.map _)

def erase (m : OrderedMap α) (key : Text) : OrderedMap α :=
  ⟨without key m.entries, nodup_without m.nodup key⟩

/-- Writes `key` as the last entry. -/
def insert (m : OrderedMap α) (key : Text) (value : α) : OrderedMap α where
  entries := without key m.entries ++ [(key, value)]
  nodup := by
    rw [List.map_append, List.nodup_append]
    refine ⟨nodup_without m.nodup key, by simp, fun a ha b hb => ?_⟩
    rintro rfl
    simp at hb
    exact key_not_mem_without key m.entries (hb ▸ ha)

/-- Writes every pair in turn. -/
def extend (m : OrderedMap α) (pairs : List (Text × α)) : OrderedMap α :=
  pairs.foldl (fun m (key, value) => m.insert key value) m

def ofList (pairs : List (Text × α)) : OrderedMap α := empty.extend pairs

/-- Replaces the value of a key in its place; a new key becomes the last entry. -/
def put (m : OrderedMap α) (key : Text) (value : α) : OrderedMap α where
  entries :=
    if key ∈ m.entries.map Prod.fst then
      m.entries.map fun entry => if entry.1 = key then (key, value) else entry
    else m.entries ++ [(key, value)]
  nodup := by
    split
    · have same : (m.entries.map fun entry => if entry.1 = key then (key, value) else entry).map Prod.fst
          = m.entries.map Prod.fst := by
        rw [List.map_map]
        apply List.map_congr_left
        intro entry _
        by_cases h : entry.1 = key <;> simp [h]
      rw [same]
      exact m.nodup
    · rename_i h
      rw [List.map_append, List.nodup_append]
      refine ⟨m.nodup, by simp, fun a ha b hb => ?_⟩
      rintro rfl
      simp at hb
      exact h (hb ▸ ha)

/-- The map in which each key stands where it was written first, with the value written last. -/
def ofListInPlace (pairs : List (Text × α)) : OrderedMap α :=
  pairs.foldl (fun m (key, value) => m.put key value) empty

/-- Two maps have the same content when each key has the same value in both, whatever the order. -/
def sameContent [DecidableEq α] (a b : OrderedMap α) : Bool :=
  a.size == b.size && a.entries.all fun (key, value) => b.get? key == some value

end OrderedMap

end LayeredConfig
