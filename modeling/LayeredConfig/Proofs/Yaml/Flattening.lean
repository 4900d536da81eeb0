import LayeredConfig.Yaml.Node

/-! Flattening a tree lists its leaves. A leaf is told by its address: in every mapping on the way to it, the
position of the member that is taken. Addresses in lexicographic order are the order of the document, and
tell two leaves apart even where a mapping repeats a key. -/

namespace LayeredConfig.Yaml

/-- A leaf of a tree: the positions and the keys of the members that lead to it, and its text. -/
structure Leaf where
  address : List Nat
  keys : List Text
  content : Text

/-- A leaf as it is seen from a mapping around it. -/
def Leaf.below (position : Nat) (key : Text) (leaf : Leaf) : Leaf :=
  ⟨position :: leaf.address, key :: leaf.keys, leaf.content⟩

/-- The leaves that a tree has. Only mappings lead to leaves; a null leaf has the empty text. -/
inductive Node.HasLeaf : Node → Leaf → Prop
  | scalar (content : Text) : HasLeaf (.scalar content) ⟨[], [], content⟩
  | null : HasLeaf .null ⟨[], [], []⟩
  | member {members : Members} {position : Nat} {key : Text} {node : Node} {leaf : Leaf}
      (hmember : members.toList[position]? = some (key, node)) (hleaf : HasLeaf node leaf) :
      HasLeaf (.mapping members) (leaf.below position key)

/-- The keys of a path that enter its name. Empty keys at the beginning leave no trace. -/
def telling (keys : List Text) : List Text := keys.dropWhile (· = [])

/-- The name of a path: its keys with points between them. -/
def dotted (keys : List Text) : Text := ['.'].intercalate (telling keys)

/-- What a leaf contributes. -/
def Leaf.entry (leaf : Leaf) : Text × Text := (dotted leaf.keys, leaf.content)

mutual

/-- The leaves of a tree, mapping by mapping. -/
def Node.leaves : Node → List Leaf
  | .mapping members => members.leavesFrom 0
  | .sequence => []
  | .scalar content => [⟨[], [], content⟩]
  | .null => [⟨[], [], []⟩]

/-- The leaves of members that stand from a position on. -/
def Members.leavesFrom : Nat → Members → List Leaf
  | _, .nil => []
  | first, .cons key node rest =>
    node.leaves.map (Leaf.below first key) ++ rest.leavesFrom (first + 1)

end

/-! ### Names -/

section Names

variable {here : Text} {keys : List Text}

theorem nameBelow_of_ne_nil (h : here ≠ []) (key : Text) : nameBelow here key = here ++ '.' :: key :=
  if_neg h

theorem foldl_nameBelow_of_ne_nil (h : here ≠ []) (keys : List Text) :
    keys.foldl nameBelow here = here ++ keys.flatMap ('.' :: ·) := by
  induction keys generalizing here with
  | nil => simp
  | cons key keys ih =>
      rw [List.foldl_cons, nameBelow_of_ne_nil h, ih (by simp), List.flatMap_cons, List.append_assoc]

theorem intercalate_cons (key : Text) (keys : List Text) :
    ['.'].intercalate (key :: keys) = key ++ keys.flatMap ('.' :: ·) := by
  induction keys generalizing key with
  | nil => simp
  | cons next keys ih => rw [List.intercalate_cons_cons, ih, List.flatMap_cons]; simp

/-- The name that is built on the way down from the root. -/
theorem foldl_nameBelow_nil (keys : List Text) : keys.foldl nameBelow [] = dotted keys := by
  induction keys with
  | nil => rfl
  | cons key keys ih =>
      have hroot : nameBelow [] key = key := if_pos rfl
      rw [List.foldl_cons, hroot, dotted, telling, List.dropWhile_cons]
      by_cases hkey : key = []
      · rw [if_pos (by simpa using hkey), hkey]
        exact ih
      · rw [if_neg (by simpa using hkey), intercalate_cons]
        exact foldl_nameBelow_of_ne_nil hkey keys

end Names

/-! ### Leaves in the document's order -/

section Order

mutual

theorem Node.mem_leaves_iff (leaf : Leaf) : ∀ node : Node, leaf ∈ node.leaves ↔ node.HasLeaf leaf
  | .mapping members => by
      rw [Node.leaves, Members.mem_leavesFrom_iff leaf members 0]
      constructor
      · rintro ⟨position, key, node, inner, hmember, hleaf, rfl⟩
        rw [Nat.zero_add]
        exact .member hmember hleaf
      · intro h
        cases h with
        | @member _ position key node inner hmember hleaf =>
            exact ⟨position, key, node, inner, hmember, hleaf, by rw [Nat.zero_add]⟩
  | .sequence => by
      constructor
      · intro h
        cases h
      · intro h
        cases h
  | .scalar content => by
      rw [Node.leaves, List.mem_singleton]
      constructor
      · rintro rfl
        exact .scalar content
      · intro h
        cases h
        rfl
  | .null => by
      rw [Node.leaves, List.mem_singleton]
      constructor
      · rintro rfl
        exact .null
      · intro h
        cases h
        rfl

theorem Members.mem_leavesFrom_iff (leaf : Leaf) : ∀ (members : Members) (first : Nat),
    leaf ∈ members.leavesFrom first ↔
      ∃ position key node inner, members.toList[position]? = some (key, node) ∧ Node.HasLeaf node inner ∧
        leaf = inner.below (first + position) key
  | .nil, first => by simp [Members.leavesFrom, Members.toList]
  | .cons key node rest, first => by
      rw [Members.leavesFrom, List.mem_append, List.mem_map, Members.mem_leavesFrom_iff leaf rest (first + 1),
        Members.toList]
      constructor
      · rintro (⟨inner, hmem, rfl⟩ | ⟨position, other, below, inner, hmember, hleaf, rfl⟩)
        · exact ⟨0, key, node, inner, rfl, (Node.mem_leaves_iff inner node).1 hmem, rfl⟩
        · refine ⟨position + 1, other, below, inner, hmember, hleaf, ?_⟩
          rw [Nat.add_assoc, Nat.add_comm 1]
      · rintro ⟨position, other, below, inner, hmember, hleaf, rfl⟩
        cases position with
        | zero =>
            cases hmember
            exact .inl ⟨inner, (Node.mem_leaves_iff inner node).2 hleaf, rfl⟩
        | succ position =>
            refine .inr ⟨position, other, below, inner, hmember, hleaf, ?_⟩
            rw [Nat.add_assoc, Nat.add_comm 1]

end

/-- The addresses of later members begin with a greater position. -/
theorem Members.exists_address_of_mem {members : Members} {first : Nat} {leaf : Leaf}
    (h : leaf ∈ members.leavesFrom first) :
    ∃ position rest, leaf.address = position :: rest ∧ first ≤ position := by
  obtain ⟨position, key, node, inner, -, -, rfl⟩ := (mem_leavesFrom_iff leaf members first).1 h
  exact ⟨first + position, inner.address, rfl, Nat.le_add_right first position⟩

mutual

theorem Node.pairwise_leaves : ∀ node : Node, node.leaves.Pairwise fun a b => a.address < b.address
  | .mapping members => Members.pairwise_leavesFrom members 0
  | .sequence => .nil
  | .scalar _ => List.pairwise_singleton _ _
  | .null => List.pairwise_singleton _ _

theorem Members.pairwise_leavesFrom : ∀ (members : Members) (first : Nat),
    (members.leavesFrom first).Pairwise fun a b => a.address < b.address
  | .nil, _ => .nil
  | .cons key node rest, first => by
      rw [Members.leavesFrom, List.pairwise_append, List.pairwise_map]
      refine ⟨?_, Members.pairwise_leavesFrom rest (first + 1), ?_⟩
      · apply (Node.pairwise_leaves node).imp
        intro a b hless
        exact List.cons_lt_cons_iff.2 (.inr ⟨rfl, hless⟩)
      · intro a ha b hb
        obtain ⟨inner, -, rfl⟩ := List.mem_map.1 ha
        obtain ⟨position, address, haddress, hposition⟩ := Members.exists_address_of_mem hb
        rw [haddress]
        exact List.cons_lt_cons_iff.2 (.inl hposition)

end

mutual

/-- Below any place, the flattening lists the leaves with the names that are built on the way to them. -/
theorem Node.entriesAt_eq : ∀ (node : Node) (here : Text),
    node.entriesAt here = node.leaves.map fun leaf => (leaf.keys.foldl nameBelow here, leaf.content)
  | .mapping members, here => Members.entriesAt_eq members here 0
  | .sequence, _ => rfl
  | .scalar _, _ => rfl
  | .null, _ => rfl

theorem Members.entriesAt_eq : ∀ (members : Members) (here : Text) (first : Nat),
    members.entriesAt here =
      (members.leavesFrom first).map fun leaf => (leaf.keys.foldl nameBelow here, leaf.content)
  | .nil, _, _ => rfl
  | .cons key node rest, here, first => by
      rw [Members.entriesAt, Members.leavesFrom, List.map_append, List.map_map,
        Node.entriesAt_eq node (nameBelow here key), Members.entriesAt_eq rest here (first + 1)]
      rfl

end

theorem Node.entries_eq (node : Node) : node.entries = node.leaves.map Leaf.entry := by
  rw [Node.entries, Node.entriesAt_eq]
  apply List.map_congr_left
  intro leaf _
  rw [foldl_nameBelow_nil]
  rfl

end Order

/-- Flattening a tree lists one entry for every leaf and nothing else, in the order of the document. Each
is made of the leaf's text and of the keys that lead to it. -/
theorem entries_list_leaves (node : Node) :
    ∃ leaves : List Leaf, (∀ leaf, leaf ∈ leaves ↔ node.HasLeaf leaf) ∧
      leaves.Pairwise (fun a b => a.address < b.address) ∧ node.entries = leaves.map Leaf.entry :=
  ⟨node.leaves, fun leaf => node.mem_leaves_iff leaf, node.pairwise_leaves, node.entries_eq⟩

/-- Empty keys are left out at the beginning and kept further down; a repeated key makes two entries. -/
example :
    (Node.mapping (.ofList
      [([], .mapping (.ofList [([], .mapping (.ofList [("a".toList, .scalar "1".toList)])), ("b".toList, .null)])),
        ("c".toList, .mapping (.ofList [([], .mapping (.ofList [("d".toList, .scalar "2".toList)])),
          ("e.f".toList, .sequence), ("g".toList, .mapping .nil)])),
        ("a".toList, .scalar "3".toList)])).entries =
      [("a".toList, "1".toList), ("b".toList, []), ("c..d".toList, "2".toList), ("a".toList, "3".toList)] := by
  decide

end LayeredConfig.Yaml
