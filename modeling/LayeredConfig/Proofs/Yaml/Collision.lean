import LayeredConfig.Proofs.LastWrite
import LayeredConfig.Proofs.Yaml.Flattening
import LayeredConfig.Yaml.Document
import Mathlib.Data.List.Nodup

/-! Leaves that get one name. In a tree whose mappings do not repeat keys, and whose keys have no points, the
path of a leaf tells the leaf, and its name tells the path except for empty keys at the beginning. So two
leaves collide exactly when their paths differ in nothing else, and then the later one alone is kept
when the entries are written into a map. -/

namespace LayeredConfig.Yaml

mutual

/-- No mapping of a tree repeats a key, and no key contains a point. -/
def Node.WellKeyed : Node → Prop
  | .mapping members => (members.toList.map Prod.fst).Nodup ∧ members.WellKeyed
  | .sequence | .scalar _ | .null => True

def Members.WellKeyed : Members → Prop
  | .nil => True
  | .cons key node rest => '.' ∉ key ∧ node.WellKeyed ∧ rest.WellKeyed

end

/-- The names of two leaves come from different keys. -/
def Node.PathsApart (node : Node) : Prop :=
  ∀ a b, node.HasLeaf a → node.HasLeaf b → telling a.keys = telling b.keys → a = b

section Paths

variable {node : Node} {a b : Leaf}

theorem Members.WellKeyed.of_getElem? : ∀ {members : Members} {position : Nat} {key : Text},
    members.WellKeyed → members.toList[position]? = some (key, node) → '.' ∉ key ∧ node.WellKeyed
  | .nil, _, _, _, hmember => by simp [Members.toList] at hmember
  | .cons _ _ _, 0, _, ⟨hkey, hnode, _⟩, hmember => by
      cases hmember
      exact ⟨hkey, hnode⟩
  | .cons _ _ _, _ + 1, _, ⟨_, _, hrest⟩, hmember => hrest.of_getElem? hmember

theorem Node.HasLeaf.point_not_mem (h : node.HasLeaf a) (hkeyed : node.WellKeyed) :
    ∀ key ∈ a.keys, '.' ∉ key := by
  induction h with
  | scalar content => exact List.forall_mem_nil _
  | null => exact List.forall_mem_nil _
  | member hmember _ ih =>
      obtain ⟨hkey, hnode⟩ := hkeyed.2.of_getElem? hmember
      exact List.forall_mem_cons.2 ⟨hkey, ih hnode⟩

/-- A key that is not repeated stands at one position. -/
theorem position_unique {members : Members} (h : (members.toList.map Prod.fst).Nodup) {i j : Nat}
    {key : Text} {m n : Node} (hi : members.toList[i]? = some (key, m))
    (hj : members.toList[j]? = some (key, n)) : i = j := by
  have hkeys : ∀ {k : Nat} {below : Node}, members.toList[k]? = some (key, below) →
      (members.toList.map Prod.fst)[k]? = some key := by
    intro k below hk
    rw [List.getElem?_map, hk]
    rfl
  obtain ⟨hlength, -⟩ := List.getElem?_eq_some_iff.1 (hkeys hi)
  exact (List.getElem?_inj hlength h).1 ((hkeys hi).trans (hkeys hj).symm)

/-- The path of a leaf tells the leaf. -/
theorem Node.HasLeaf.unique (ha : node.HasLeaf a) (hb : node.HasLeaf b) (hkeyed : node.WellKeyed)
    (hkeys : a.keys = b.keys) : a = b := by
  induction ha generalizing b with
  | scalar content =>
      cases hb
      rfl
  | null =>
      cases hb
      rfl
  | @member members i key below inner hmember _ ih =>
      cases hb with
      | @member _ j other under leaf hother hleaf =>
          obtain ⟨rfl, hrest⟩ := List.cons.inj hkeys
          obtain rfl := position_unique hkeyed.1 hmember hother
          obtain rfl : below = under := by
            have hpair := Option.some.inj (hmember.symm.trans hother)
            exact (Prod.mk.inj hpair).2
          rw [ih hleaf (hkeyed.2.of_getElem? hmember).2 hrest]

end Paths

/-! ### Names tell what is in them -/

section Names

variable {a b : List Text}

theorem telling_cases (keys : List Text) :
    telling keys = [] ∨ ∃ key rest, telling keys = key :: rest ∧ key ≠ [] := by
  induction keys with
  | nil => exact .inl rfl
  | cons key keys ih =>
      rw [telling, List.dropWhile_cons]
      by_cases hkey : key = []
      · rw [if_pos (by simpa using hkey)]
        exact ih
      · rw [if_neg (by simpa using hkey)]
        exact .inr ⟨key, keys, rfl, hkey⟩

theorem point_not_mem_telling (h : ∀ key ∈ a, '.' ∉ key) : ∀ key ∈ telling a, '.' ∉ key :=
  fun key hmem => h key ((List.dropWhile_sublist _).subset hmem)

theorem dotted_eq_nil_iff (keys : List Text) : dotted keys = [] ↔ telling keys = [] := by
  constructor
  · intro h
    rcases telling_cases keys with hnil | ⟨key, rest, heq, hkey⟩
    · exact hnil
    · rw [dotted, heq, intercalate_cons] at h
      exact absurd (List.append_eq_nil_iff.1 h).1 hkey
  · intro h
    rw [dotted, h]
    rfl

/-- Keys without points can be read off the name they make. -/
theorem dotted_eq_iff (ha : ∀ key ∈ a, '.' ∉ key) (hb : ∀ key ∈ b, '.' ∉ key) :
    dotted a = dotted b ↔ telling a = telling b := by
  constructor
  · intro h
    by_cases hnil : telling a = []
    · rw [hnil, eq_comm, ← dotted_eq_nil_iff, ← h, dotted_eq_nil_iff, hnil]
    · have hnil' : telling b ≠ [] := by
        rwa [ne_eq, ← dotted_eq_nil_iff, ← h, dotted_eq_nil_iff]
      calc telling a
          = List.splitOn '.' (dotted a) :=
            (List.splitOn_intercalate '.' (point_not_mem_telling ha) hnil).symm
        _ = List.splitOn '.' (dotted b) := by rw [h]
        _ = telling b := List.splitOn_intercalate '.' (point_not_mem_telling hb) hnil'
  · intro h
    rw [dotted, dotted, h]

theorem telling_of_head (h : a.head? ≠ some []) : telling a = a := by
  cases a with
  | nil => rfl
  | cons key keys => exact List.dropWhile_cons_of_neg (by simpa using h)

end Names

section Collisions

variable {node : Node}

theorem Node.nodup_leaves (node : Node) : node.leaves.Nodup := by
  apply node.pairwise_leaves.imp
  rintro a b hless rfl
  exact List.lt_irrefl a.address hless

theorem nodup_keys_iff (h : node.WellKeyed) :
    (node.entries.map Prod.fst).Nodup ↔ node.PathsApart := by
  have hnames : node.entries.map Prod.fst = node.leaves.map fun leaf => dotted leaf.keys := by
    rw [node.entries_eq, List.map_map]
    rfl
  have hpoint : ∀ leaf, node.HasLeaf leaf → ∀ key ∈ leaf.keys, '.' ∉ key :=
    fun leaf hleaf => hleaf.point_not_mem h
  rw [hnames, List.nodup_map_iff_inj_on node.nodup_leaves]
  constructor
  · intro hinj a b ha hb hkeys
    apply hinj a ((node.mem_leaves_iff a).2 ha) b ((node.mem_leaves_iff b).2 hb)
    exact (dotted_eq_iff (hpoint a ha) (hpoint b hb)).2 hkeys
  · intro hapart a ha b hb hname
    have ha := (node.mem_leaves_iff a).1 ha
    have hb := (node.mem_leaves_iff b).1 hb
    exact hapart a b ha hb ((dotted_eq_iff (hpoint a ha) (hpoint b hb)).1 hname)

theorem pathsApart_of_head (h : node.WellKeyed)
    (hhead : ∀ leaf, node.HasLeaf leaf → leaf.keys.head? ≠ some []) : node.PathsApart := by
  intro a b ha hb hkeys
  rw [telling_of_head (hhead a ha), telling_of_head (hhead b hb)] at hkeys
  exact ha.unique hb h hkeys

end Collisions

/-- In a tree without repeated keys and without points in keys, the names of all leaves differ exactly when no
two paths differ in empty keys at the beginning only; then, and only then, writing the entries over any
map keeps all of them. Without a path that begins with an empty key this is so. -/
theorem names_distinct_iff (node : Node) (h : node.WellKeyed) :
    ((node.entries.map Prod.fst).Nodup ↔ node.PathsApart) ∧
      (∀ map : OrderedMap Text,
        (map.extend node.entries).entries = OrderedMap.unwritten map.entries node.entries ++ node.entries ↔
          node.PathsApart) ∧
      ((∀ leaf, node.HasLeaf leaf → leaf.keys.head? ≠ some []) → node.PathsApart) := by
  refine ⟨nodup_keys_iff h, fun map => ?_, pathsApart_of_head h⟩
  rw [OrderedMap.entries_extend, List.append_cancel_left_eq, OrderedMap.lastWrites_eq_self_iff]
  exact nodup_keys_iff h

/-- Empty keys at several depths, none of them in the way of another path. -/
def sparse : Node :=
  .mapping (.ofList
    [([], .mapping (.ofList [("a".toList, .scalar "1".toList), ([], .mapping (.ofList [("b".toList, .null)]))])),
      ("c".toList, .mapping (.ofList [([], .scalar "2".toList), ("a".toList, .scalar "3".toList)]))])

theorem names_distinct_sparse :
    sparse.WellKeyed ∧ (sparse.entries.map Prod.fst).Nodup ∧ sparse.PathsApart ∧
      sparse.entries = [("a".toList, "1".toList), ("b".toList, []), ("c.".toList, "2".toList),
        ("c.a".toList, "3".toList)] := by
  have hkeyed : sparse.WellKeyed := by
    simp [sparse, Members.ofList, Node.WellKeyed, Members.WellKeyed, Members.toList]
  have hnodup : (sparse.entries.map Prod.fst).Nodup := by decide
  exact ⟨hkeyed, hnodup, (names_distinct_iff sparse hkeyed).1.1 hnodup, by decide⟩

/-- Below an empty key there is a member with the key of another one. -/
def overlapping : Node :=
  .mapping (.ofList [([], .mapping (.ofList [("a".toList, .scalar "1".toList)])), ("a".toList, .scalar "2".toList)])

/-- Two leaves of a document without repeated keys and without points get one name, and a map keeps one. -/
theorem names_collide_below_empty_key :
    overlapping.WellKeyed ∧
      parse "\"\":\n  a: 1\na: 2\n".toList = .ok overlapping.entries ∧
      overlapping.entries = [("a".toList, "1".toList), ("a".toList, "2".toList)] ∧
      ¬ (overlapping.entries.map Prod.fst).Nodup ∧
      (OrderedMap.ofList overlapping.entries).entries = [("a".toList, "2".toList)] := by
  refine ⟨?_, ?_, by decide, by decide, by decide⟩
  · simp [overlapping, Members.ofList, Node.WellKeyed, Members.WellKeyed, Members.toList]
  · decide +kernel

end LayeredConfig.Yaml
