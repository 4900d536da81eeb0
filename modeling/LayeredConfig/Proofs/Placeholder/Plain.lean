import LayeredConfig.Proofs.Placeholder.Recursion

/-! Resolution without memory. The plain evaluator expands the text of a key at each use and carries
the chain only. Its results say whether a key was asked for on its own chain; the chain matters to no
other result. A key of the map is *stable* when its own text is read without such a cut, and
*unstable* otherwise. What is read without a cut needs no unstable key, so unstable keys may be put on
the chain or taken off it and the reading stays what it is. -/

namespace LayeredConfig.Placeholder

/-- The result of reading a piece of text without memory. -/
structure Reading (α : Type) where
  value : α
  /-- A key was asked for that is on its own chain. -/
  cut : Bool
  deriving DecidableEq, Repr

namespace Plain

mutual

/-- Replaces each placeholder of `raw` from left to right. -/
def expand (scope : Scope) (chain : List Text) (raw : Text) : Reading Text :=
  match _open : splitOpen raw with
  | none => ⟨raw, false⟩
  | some (before, after) =>
    match _close : splitClose after with
    | none => ⟨raw, false⟩
    | some (body, rest) =>
      let here := evaluate scope chain body
      let there := expand scope chain rest
      ⟨before ++ here.value ++ there.value, here.cut || there.cut⟩
termination_by (free scope chain, raw.length, 0)
decreasing_by
  all_goals
    have h₁ := length_of_splitOpen _open
    have h₂ := length_of_splitClose _close
    exact Prod.Lex.right _ (Prod.Lex.left _ _ (by omega))

/-- The value found for the key of a body, else its default, else the empty text. -/
def evaluate (scope : Scope) (chain : List Text) (body : Text) : Reading Text :=
  let key := expand scope chain (splitDefault body).1
  let found := find scope chain (Text.trim key.value)
  match found.value with
  | some value => ⟨value, key.cut || found.cut⟩
  | none =>
    match _default : (splitDefault body).2 with
    | none => ⟨[], key.cut || found.cut⟩
    | some default =>
      let other := expand scope chain default
      ⟨other.value, key.cut || found.cut || other.cut⟩
termination_by (free scope chain, body.length, 1)
decreasing_by
  · rcases Nat.lt_or_eq_of_le (length_fst_defaultAt 0 body) with h | h
    · exact Prod.Lex.right _ (Prod.Lex.left _ _ h)
    · unfold splitDefault
      rw [h]
      exact Prod.Lex.right _ (Prod.Lex.right _ Nat.zero_lt_one)
  · rcases Nat.eq_zero_or_pos body.length with h | h
    · rw [h]
      exact Prod.Lex.right _ (Prod.Lex.right _ Nat.zero_lt_one)
    · exact Prod.Lex.right _ (Prod.Lex.left _ _ h)
  · exact Prod.Lex.right _ (Prod.Lex.left _ _ (length_snd_defaultAt _default))

/-- The map's text for a key off the chain, expanded again at each use, else the fallback's answer. -/
def find (scope : Scope) (chain : List Text) (key : Text) : Reading (Option Text) :=
  if key = [] then ⟨none, false⟩
  else if _onChain : key ∈ chain then ⟨scope.fallback key, true⟩
  else match _inMap : scope.map.get? key with
    | none => ⟨scope.fallback key, false⟩
    | some raw =>
      let held := expand scope (key :: chain) raw
      ⟨some held.value, held.cut⟩
termination_by (free scope chain, 0, 0)
decreasing_by
  exact Prod.Lex.left _ _ (free_cons_lt _onChain _inMap)

end

/-! ### Equations -/

section Equations

variable {scope : Scope} {chain : List Text} {raw before body rest key : Text}

theorem expand_eq :
    expand scope chain raw =
      match firstPlaceholder raw with
      | none => ⟨raw, false⟩
      | some (before, body, rest) =>
        let here := evaluate scope chain body
        let there := expand scope chain rest
        ⟨before ++ here.value ++ there.value, here.cut || there.cut⟩ := by
  rw [expand]
  split
  · rename_i hopen
    simp only [firstPlaceholder, hopen]
  · rename_i hopen
    split
    · rename_i hclose
      simp only [firstPlaceholder, hopen, hclose, Option.map_none]
    · rename_i hclose
      simp only [firstPlaceholder, hopen, hclose, Option.map_some]

theorem expand_of_none (h : firstPlaceholder raw = none) : expand scope chain raw = ⟨raw, false⟩ := by
  rw [expand_eq, h]

theorem expand_of_some (h : firstPlaceholder raw = some (before, body, rest)) :
    expand scope chain raw =
      let here := evaluate scope chain body
      let there := expand scope chain rest
      ⟨before ++ here.value ++ there.value, here.cut || there.cut⟩ := by
  rw [expand_eq, h]

theorem expand_nil : expand scope chain [] = ⟨[], false⟩ :=
  expand_of_none rfl

/-- A missing default reads as the empty text, so one equation serves both kinds of body. -/
theorem evaluate_eq :
    evaluate scope chain body =
      let key := expand scope chain (splitDefault body).1
      let found := find scope chain (Text.trim key.value)
      match found.value with
      | some value => ⟨value, key.cut || found.cut⟩
      | none =>
        let other := expand scope chain (defaultOf body)
        ⟨other.value, key.cut || found.cut || other.cut⟩ := by
  rw [evaluate]
  simp only [defaultOf]
  split
  · rfl
  · split
    · rename_i hdefault
      simp [hdefault, expand_nil]
    · rename_i hdefault
      simp [hdefault]

theorem find_nil : find scope chain [] = ⟨none, false⟩ := by
  rw [find]
  simp

theorem find_of_mem (hkey : key ≠ []) (hchain : key ∈ chain) :
    find scope chain key = ⟨scope.fallback key, true⟩ := by
  rw [find]
  simp [hkey, hchain]

theorem find_of_absent (hkey : key ≠ []) (hchain : key ∉ chain) (habsent : scope.map.get? key = none) :
    find scope chain key = ⟨scope.fallback key, false⟩ := by
  rw [find]
  simp only [hkey, hchain, ↓reduceIte, ↓reduceDIte]
  split
  · rfl
  · rename_i hheld
    rw [habsent] at hheld
    cases hheld

theorem find_of_held (hkey : key ≠ []) (hchain : key ∉ chain) (hheld : scope.map.get? key = some raw) :
    find scope chain key =
      ⟨some (expand scope (key :: chain) raw).value, (expand scope (key :: chain) raw).cut⟩ := by
  rw [find]
  simp only [hkey, hchain, ↓reduceIte, ↓reduceDIte]
  split
  · rename_i habsent
    rw [hheld] at habsent
    cases habsent
  · rename_i _ hheld'
    obtain rfl : raw = _ := by simpa [hheld] using hheld'
    rfl

/-- What an uncut body has read, and when its default is among it. -/
theorem uncut_of_evaluate (h : (evaluate scope chain body).cut = false) :
    (expand scope chain (splitDefault body).1).cut = false ∧
    (find scope chain (Text.trim (expand scope chain (splitDefault body).1).value)).cut = false ∧
    ((find scope chain (Text.trim (expand scope chain (splitDefault body).1).value)).value = none →
      (expand scope chain (defaultOf body)).cut = false) := by
  rw [evaluate_eq] at h
  dsimp only at h
  split at h
  · rename_i hfound
    obtain ⟨hkey, hfind⟩ := Bool.or_eq_false_iff.1 h
    exact ⟨hkey, hfind, fun hnone => by rw [hfound] at hnone; cases hnone⟩
  · obtain ⟨hboth, hother⟩ := Bool.or_eq_false_iff.1 h
    obtain ⟨hkey, hfind⟩ := Bool.or_eq_false_iff.1 hboth
    exact ⟨hkey, hfind, fun _ => hother⟩

theorem uncut_of_expand (hfirst : firstPlaceholder raw = some (before, body, rest))
    (h : (expand scope chain raw).cut = false) :
    (evaluate scope chain body).cut = false ∧ (expand scope chain rest).cut = false := by
  rw [expand_of_some hfirst] at h
  exact Bool.or_eq_false_iff.1 h

theorem not_mem_of_find (hkey : key ≠ []) (h : (find scope chain key).cut = false) : key ∉ chain := by
  intro hchain
  rw [find_of_mem hkey hchain] at h
  cases h

end Equations

/-! ### Chains under which a reading is the same -/

/-- Two chains give the same uncut readings when a key that is read uncut under the first is on
neither, and remains so below. -/
theorem reading_eq_of_related {scope : Scope} (Related : List Text → List Text → Prop)
    (hstep : ∀ chain other key, Related chain other → key ≠ [] → key ∉ chain →
      (find scope chain key).cut = false → key ∉ other ∧ Related (key :: chain) (key :: other)) :
    (∀ chain raw, ∀ other, Related chain other → (expand scope chain raw).cut = false →
      expand scope other raw = expand scope chain raw) ∧
    (∀ chain body, ∀ other, Related chain other → (evaluate scope chain body).cut = false →
      evaluate scope other body = evaluate scope chain body) ∧
    (∀ chain key, ∀ other, Related chain other → (find scope chain key).cut = false →
      find scope other key = find scope chain key) := by
  refine resolution_induction scope ?plain ?placeholder ?body ?key
  case plain =>
    intro chain raw hfirst other _ _
    rw [expand_of_none hfirst, expand_of_none hfirst]
  case placeholder =>
    intro chain raw before body rest hfirst ihBody ihRest other hrelated hcut
    obtain ⟨hbody, hrest⟩ := uncut_of_expand hfirst hcut
    rw [expand_of_some hfirst, expand_of_some hfirst, ihBody other hrelated hbody,
      ihRest other hrelated hrest]
  case body =>
    intro chain body ihText ihKey ihDefault other hrelated hcut
    obtain ⟨htext, hkey, hdefault⟩ := uncut_of_evaluate hcut
    have hsameText := ihText other hrelated htext
    have hsameKey := ihKey _ other hrelated hkey
    rw [evaluate_eq, evaluate_eq, hsameText]
    dsimp only
    rw [hsameKey]
    split
    · rfl
    · rename_i hnone
      rw [ihDefault other hrelated (hdefault hnone)]
  case key =>
    intro chain key ih other hrelated hcut
    by_cases hkey : key = []
    · rw [hkey, find_nil, find_nil]
    have hchain := not_mem_of_find hkey hcut
    obtain ⟨hother, hbelow⟩ := hstep chain other key hrelated hkey hchain hcut
    cases hheld : scope.map.get? key with
    | none => rw [find_of_absent hkey hother hheld, find_of_absent hkey hchain hheld]
    | some raw =>
        rw [find_of_held hkey hchain hheld] at hcut
        rw [find_of_held hkey hother hheld, find_of_held hkey hchain hheld,
          ih raw hchain hheld (key :: other) hbelow hcut]

/-- A shorter chain cuts no more. -/
theorem expand_eq_of_subset {scope : Scope} {chain other : List Text} {raw : Text} (hsub : other ⊆ chain)
    (h : (expand scope chain raw).cut = false) : expand scope other raw = expand scope chain raw := by
  refine (reading_eq_of_related (fun c c' => c' ⊆ c) ?_).1 chain raw other hsub h
  intro c c' key hrelated _ hchain _
  exact ⟨fun hmem => hchain (hrelated hmem), List.cons_subset_cons key hrelated⟩

/-- The map's text for the key is read without a cut, and this is the value. -/
def Stable (scope : Scope) (key value : Text) : Prop :=
  ∃ raw, scope.map.get? key = some raw ∧ expand scope [key] raw = ⟨value, false⟩

/-- The reading of the map's text for the key is cut, so that it may depend on the chain. -/
def Unstable (scope : Scope) (key : Text) : Prop :=
  ∃ raw, scope.map.get? key = some raw ∧ (expand scope [key] raw).cut = true

section Stability

variable {scope : Scope} {chain other : List Text} {key raw value : Text}

theorem Stable.read (h : Stable scope key value) (hheld : scope.map.get? key = some raw) :
    expand scope [key] raw = ⟨value, false⟩ := by
  obtain ⟨raw', hheld', hread⟩ := h
  obtain rfl : raw = raw' := Option.some.inj (hheld.symm.trans hheld')
  exact hread

theorem Stable.unique {value' : Text} (h : Stable scope key value) (h' : Stable scope key value') :
    value = value' := by
  obtain ⟨raw, hheld, hread⟩ := h
  exact congrArg Reading.value (hread.symm.trans (h'.read hheld))

theorem Stable.not_unstable (h : Stable scope key value) : ¬Unstable scope key := by
  rintro ⟨raw, hheld, hcut⟩
  rw [h.read hheld] at hcut
  cases hcut

theorem stable_or_unstable (hheld : scope.map.get? key = some raw) :
    Stable scope key (expand scope [key] raw).value ∨ Unstable scope key := by
  cases hcut : (expand scope [key] raw).cut with
  | true => exact Or.inr ⟨raw, hheld, hcut⟩
  | false => exact Or.inl ⟨raw, hheld, by rw [← hcut]⟩

theorem stable_of_uncut (hheld : scope.map.get? key = some raw)
    (h : (expand scope (key :: chain) raw).cut = false) :
    Stable scope key (expand scope (key :: chain) raw).value := by
  have hsub : [key] ⊆ key :: chain := List.cons_subset_cons key (List.nil_subset chain)
  have hsame := expand_eq_of_subset hsub h
  exact ⟨raw, hheld, by rw [hsame, ← h]⟩

/-- Unstable keys on the chain do not touch an uncut reading: it asks for none of them. -/
theorem expand_eq_of_unstable (hunstable : ∀ key ∈ other, key ∈ chain ∨ Unstable scope key)
    (h : (expand scope chain raw).cut = false) : expand scope other raw = expand scope chain raw := by
  refine (reading_eq_of_related (fun c c' => ∀ key ∈ c', key ∈ c ∨ Unstable scope key) ?_).1
    chain raw other hunstable h
  intro c c' key hrelated hkey hchain hcut
  constructor
  · intro hmem
    obtain ⟨raw, hheld, hcut'⟩ := (hrelated key hmem).resolve_left hchain
    rw [find_of_held hkey hchain hheld] at hcut
    exact (stable_of_uncut hheld hcut).not_unstable ⟨raw, hheld, hcut'⟩
  · intro other hmem
    rcases List.mem_cons.1 hmem with rfl | hmem
    · exact Or.inl List.mem_cons_self
    · exact (hrelated other hmem).imp_left (List.mem_cons_of_mem key)

/-- A text that is read uncut from no chain at all does not lead back to a key that holds it. -/
theorem stable_of_uncut_nil (hheld : scope.map.get? key = some raw)
    (h : (expand scope [] raw).cut = false) : Stable scope key (expand scope [] raw).value := by
  rcases stable_or_unstable hheld with hstable | hunstable
  · have hread := hstable.read hheld
    have hsame := expand_eq_of_subset (List.nil_subset [key]) (congrArg Reading.cut hread)
    rw [hsame]
    exact hstable
  · have hchain : ∀ k ∈ [key], k ∈ [] ∨ Unstable scope k := List.forall_mem_singleton.2 (Or.inr hunstable)
    have hsame := expand_eq_of_unstable hchain h
    exact ⟨raw, hheld, by rw [hsame, ← h]⟩

/-- A stable key reads the same under every chain of unstable keys. -/
theorem Stable.find_eq (h : Stable scope key value) (hkey : key ≠ [])
    (hchain : ∀ key ∈ chain, Unstable scope key) : find scope chain key = ⟨some value, false⟩ := by
  have hnot : key ∉ chain := fun hmem => h.not_unstable (hchain key hmem)
  obtain ⟨raw, hheld, hread⟩ := h
  have hsame : expand scope (key :: chain) raw = expand scope [key] raw := by
    refine expand_eq_of_unstable (fun other hmem => ?_) (congrArg Reading.cut hread)
    rcases List.mem_cons.1 hmem with rfl | hmem
    · exact Or.inl List.mem_cons_self
    · exact Or.inr (hchain other hmem)
  rw [find_of_held hkey hnot hheld, hsame, hread]

end Stability

end Plain

end LayeredConfig.Placeholder
