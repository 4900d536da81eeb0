import LayeredConfig.Proofs.Outcome
import LayeredConfig.Proofs.Typed.Leaves
import LayeredConfig.Proofs.Typed.Reader

/-! Properties as assignments to paths. An entry assigns every leaf of its value, below the components of its
key. The tree of the entries keeps the assignments that no later entry comes across with one at the same
path, at a beginning of it or at a continuation; so the order of entries that never come across each
other makes no difference. -/

namespace LayeredConfig.Typed

/-- What an entry assigns: the leaves of its value, below the components of its key. -/
def Assigns (entry : Text × Text) (place : List Text) (leaf : Value) : Prop :=
  ∃ inner, place = path entry.1 ++ inner ∧ (Reader.read entry.2).HasLeaf inner leaf

/-- The entry assigns nothing at a place, at its beginnings or at its continuations. -/
def Spares (entry : Text × Text) (place : List Text) : Prop :=
  ∀ other leaf, Assigns entry other leaf → ¬ Comparable place other

/-- Entries make the assignment, and those after it spare its place. -/
def Survives (entries : List (Text × Text)) (place : List Text) (leaf : Value) : Prop :=
  ∃ before entry after, entries = before ++ entry :: after ∧ Assigns entry place leaf ∧
    ∀ later ∈ after, Spares later place

/-- No two of the entries come across each other's places. -/
def Unrelated (entries : List (Text × Text)) : Prop :=
  entries.Pairwise fun a b => ∀ place leaf, Assigns a place leaf → Spares b place

section Nest

variable {value leaf : Value}

theorem hasLeaf_nest_iff (components : List Text) {place : List Text} :
    (nest components value).HasLeaf place leaf ↔
      ∃ inner, place = components ++ inner ∧ value.HasLeaf inner leaf := by
  induction components generalizing place with
  | nil => simp [nest]
  | cons key components ih =>
      rw [nest]
      cases place with
      | nil => simp [not_hasLeaf_dict_nil]
      | cons other place =>
          rw [hasLeaf_dict_cons_iff]
          simp only [Dict.get?_cons, Dict.get?_nil]
          by_cases hkey : other = key
          · simp [hkey, ih]
          · simp [hkey]

theorem tidy_nest (h : value.Tidy) (components : List Text) : (nest components value).Tidy := by
  induction components with
  | nil => exact h
  | cons key components ih =>
      refine ⟨⟨List.forall_mem_nil _, ih.1, trivial⟩, ?_⟩
      rw [nest, full_dict_iff, Dict.full, ih.2]
      exact ⟨(fun h => by cases h), rfl⟩

end Nest

section Entries

variable {entry : Text × Text} {entries : List (Text × Text)} {place : List Text} {leaf : Value}

theorem tidy_read (h : (Reader.read entry.2).full = true) : (nest (path entry.1) (Reader.read entry.2)).Tidy :=
  tidy_nest ⟨Reader.ordered_read entry.2, h⟩ (path entry.1)

theorem survives_nil : ¬ Survives [] place leaf := by
  rintro ⟨before, entry, after, heq, -⟩
  simp at heq

theorem survives_cons_iff :
    Survives (entry :: entries) place leaf ↔
      Survives entries place leaf ∨ Assigns entry place leaf ∧ ∀ later ∈ entries, Spares later place := by
  constructor
  · rintro ⟨before, other, after, heq, hassigns, hspares⟩
    cases before with
    | nil =>
        cases heq
        exact .inr ⟨hassigns, hspares⟩
    | cons first before =>
        cases heq
        exact .inl ⟨before, other, after, rfl, hassigns, hspares⟩
  · rintro (⟨before, other, after, rfl, hassigns, hspares⟩ | ⟨hassigns, hspares⟩)
    · exact ⟨entry :: before, other, after, rfl, hassigns, hspares⟩
    · exact ⟨[], entry, entries, rfl, hassigns, hspares⟩

/-- Among entries that do not come across each other's places every assignment survives. -/
theorem Unrelated.survives_iff (h : Unrelated entries) :
    Survives entries place leaf ↔ ∃ entry ∈ entries, Assigns entry place leaf := by
  induction entries with
  | nil => simp [survives_nil]
  | cons entry entries ih =>
      obtain ⟨hentry, hentries⟩ := List.pairwise_cons.1 h
      have hfirst : (Assigns entry place leaf ∧ ∀ later ∈ entries, Spares later place) ↔
          Assigns entry place leaf :=
        and_iff_left_of_imp fun hassigns later hlater => hentry later hlater place leaf hassigns
      rw [survives_cons_iff, ih hentries, hfirst, or_comm]
      simp

theorem treeOf_cons_eq_ok_iff {start dict : Dict} :
    treeOf start (entry :: entries) = .ok dict ↔
      ∃ nested, nest (path entry.1) (Reader.read entry.2) = .dict nested ∧
        treeOf (start.merge nested) entries = .ok dict := by
  rw [treeOf]
  split
  · rename_i nested hnested
    simp [hnested]
  · rename_i hleaf
    constructor
    · intro h
      cases h
    · rintro ⟨nested, hnested, -⟩
      exact absurd hnested (hleaf nested)

/-- Writing entries over a dictionary succeeds exactly when each of them is a dictionary. -/
theorem exists_treeOf_iff (start : Dict) :
    (∃ dict, treeOf start entries = .ok dict) ↔
      ∀ entry ∈ entries, ∃ nested, nest (path entry.1) (Reader.read entry.2) = .dict nested := by
  induction entries generalizing start with
  | nil => simp [treeOf]
  | cons entry entries ih =>
      simp only [treeOf_cons_eq_ok_iff, List.forall_mem_cons]
      constructor
      · rintro ⟨dict, nested, hnested, htree⟩
        exact ⟨⟨nested, hnested⟩, (ih _).1 ⟨dict, htree⟩⟩
      · rintro ⟨⟨nested, hnested⟩, hentries⟩
        obtain ⟨dict, htree⟩ := (ih (start.merge nested)).2 hentries
        exact ⟨dict, nested, hnested, htree⟩

/-- What the tree keeps of the entries, and of what was there before them. -/
theorem treeOf_spec {start dict : Dict} (hstart : start.Tidy) (h : treeOf start entries = .ok dict)
    (hfull : ∀ entry ∈ entries, (Reader.read entry.2).full = true) :
    dict.Tidy ∧ ∀ place leaf, (Value.dict dict).HasLeaf place leaf ↔
      Survives entries place leaf ∨
        (Value.dict start).HasLeaf place leaf ∧ ∀ entry ∈ entries, Spares entry place := by
  induction entries generalizing start with
  | nil =>
      cases h
      exact ⟨hstart, by simp [survives_nil]⟩
  | cons entry entries ih =>
      obtain ⟨nested, hnested, htree⟩ := treeOf_cons_eq_ok_iff.1 h
      obtain ⟨hentry, hentries⟩ := List.forall_mem_cons.1 hfull
      have htidy : (Value.dict nested).Tidy := hnested ▸ tidy_read hentry
      have hassigns : ∀ place leaf, (Value.dict nested).HasLeaf place leaf ↔ Assigns entry place leaf := by
        intro place leaf
        rw [← hnested]
        exact hasLeaf_nest_iff (path entry.1)
      obtain ⟨hdict, hleaves⟩ := ih (hstart.merge (tidy_dict_iff.1 htidy).2) htree hentries
      refine ⟨hdict, fun place leaf => ?_⟩
      have hspares : (∀ other new, (Value.dict nested).HasLeaf other new → ¬ Comparable place other) ↔
          Spares entry place := by simp only [hassigns, Spares]
      rw [hleaves, hasLeaf_merge htidy, hassigns, hspares, survives_cons_iff, List.forall_mem_cons,
        or_and_right, or_assoc, and_assoc]

end Entries

theorem Unrelated.perm {entries others : List (Text × Text)} (h : Unrelated entries)
    (hperm : entries.Perm others) : Unrelated others := by
  apply List.Pairwise.perm h hperm
  intro a b hab place leaf hplace other new hother hcomparable
  exact hab other new hother place leaf hplace hcomparable.symm

/-- All that an entry assigns is below its key. -/
theorem Assigns.key_isPrefix {entry : Text × Text} {place : List Text} {leaf : Value} (h : Assigns entry place leaf) :
    path entry.1 <+: place := by
  obtain ⟨inner, rfl, -⟩ := h
  exact List.prefix_append (path entry.1) inner

/-- Entries do not come across each other's places when none of their keys is the beginning of another. -/
theorem unrelated_of_keys {entries : List (Text × Text)}
    (h : entries.Pairwise fun a b => ¬ Comparable (path a.1) (path b.1)) : Unrelated entries := by
  apply h.imp
  intro a b hkeys place leaf hplace other new hother hcomparable
  apply hkeys
  rcases hcomparable with hbefore | hbefore
  · apply List.prefix_or_prefix_of_prefix
    · exact hplace.key_isPrefix.trans hbefore
    · exact hother.key_isPrefix
  · apply List.prefix_or_prefix_of_prefix
    · exact hplace.key_isPrefix
    · exact hother.key_isPrefix.trans hbefore

/-- Where no value holds an empty dictionary, the leaves of the tree are the assignments that all later
entries spare. When no two entries come across each other's places, every order of them makes this tree. -/
theorem leaves_are_last_writes (properties : OrderedMap Text) (dict : Dict) (h : tree properties = .ok dict)
    (hfull : ∀ entry ∈ properties.entries, (Reader.read entry.2).full = true) :
    (∀ place leaf, (Value.dict dict).HasLeaf place leaf ↔ Survives properties.entries place leaf) ∧
      (Unrelated properties.entries →
        ∀ other : OrderedMap Text, other.entries.Perm properties.entries → tree other = .ok dict) := by
  have hnil : Dict.nil.Tidy := ⟨trivial, rfl⟩
  have hnone : ∀ place leaf, ¬ (Value.dict .nil).HasLeaf place leaf := by
    intro place leaf hleaf
    cases hleaf with
    | here hleaf => exact not_isLeaf_dict hleaf
    | under hget => simp at hget
  obtain ⟨hdict, hleaves⟩ := treeOf_spec hnil h hfull
  simp only [hnone, false_and, or_false] at hleaves
  refine ⟨hleaves, fun hunrelated other hperm => ?_⟩
  obtain ⟨dict', htree⟩ := (exists_treeOf_iff .nil).2 fun entry hentry =>
    (exists_treeOf_iff .nil).1 ⟨dict, h⟩ entry (hperm.mem_iff.1 hentry)
  obtain ⟨hdict', hleaves'⟩ := treeOf_spec hnil htree fun entry hentry => hfull entry (hperm.mem_iff.1 hentry)
  simp only [hnone, false_and, or_false] at hleaves'
  have heq : dict' = dict := by
    apply Dict.eq_of_hasLeaf hdict' hdict
    intro place leaf
    rw [hleaves, hleaves', hunrelated.survives_iff, (hunrelated.perm hperm.symm).survives_iff]
    simp only [hperm.mem_iff]
  rw [tree, htree, heq]

/-- Keys that share a table, one of them with an inline table and an empty component. -/
def siblings : OrderedMap Text :=
  .ofList [("a.x".toList, "1".toList), ("b".toList, "flat".toList), ("a.y..z".toList, "\x7bk=true,l=[2]\x7d".toList)]

def siblingsTree : Dict :=
  .ofList [("a".toList, .dict (.ofList [("x".toList, .unsigned 1),
    ("y".toList, .dict (.ofList [("k".toList, .bool true), ("l".toList, .array (.ofList [.unsigned 2]))]))])),
    ("b".toList, .text "flat".toList)]

theorem tree_siblings_reverse :
    tree siblings = .ok siblingsTree ∧
      (∀ entry ∈ siblings.entries, (Reader.read entry.2).full = true) ∧
      Survives siblings.entries ["a".toList, "y".toList, "k".toList] (.bool true) ∧
      Unrelated siblings.entries ∧ tree (.ofList siblings.entries.reverse) = .ok siblingsTree := by
  have htree : tree siblings = .ok siblingsTree := by decide +kernel
  have hfull : ∀ entry ∈ siblings.entries, (Reader.read entry.2).full = true := by decide +kernel
  have hunrelated : Unrelated siblings.entries := unrelated_of_keys (by decide)
  have hperm : (OrderedMap.ofList siblings.entries.reverse).entries.Perm siblings.entries := by decide
  obtain ⟨hleaves, horder⟩ := leaves_are_last_writes siblings siblingsTree htree hfull
  refine ⟨htree, hfull, (hleaves _ _).1 ?_, hunrelated, horder hunrelated _ hperm⟩
  exact .under rfl (.under rfl (.under rfl (.here fun _ h => by cases h)))

/-- A flat value takes the place of a table, and a table that of a flat value; tables at one name are united. -/
example :
    tree (.ofList [("a.b".toList, "1".toList), ("c".toList, "\x7bx=1,y=\x7bz=2\x7d\x7d".toList),
        ("a".toList, "flat".toList), ("c.y.w".toList, "true".toList), ("a.d".toList, "3".toList),
        ("c.x".toList, "4".toList)]) =
      .ok (.ofList [("a".toList, .dict (.ofList [("d".toList, .unsigned 3)])),
        ("c".toList, .dict (.ofList [("x".toList, .unsigned 4),
          ("y".toList, .dict (.ofList [("w".toList, .bool true), ("z".toList, .unsigned 2)]))]))]) := by
  decide +kernel

end LayeredConfig.Typed
