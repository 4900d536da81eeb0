import LayeredConfig.Placeholder.Resolver

/-! How a resolution recurses. A text is resolved placeholder by placeholder, a placeholder through
its key and its default, and a key through the text that the map holds for it, under a longer chain.
The equations of the three functions are stated here once, by what the call meets, together with the
induction that follows them. The induction runs over the chain and the text alone: what is claimed of
them may speak of any memory, and of any other evaluator with the same calls. -/

namespace LayeredConfig.Placeholder

/-- The text before the first placeholder, the placeholder's body, and the text after it. -/
def firstPlaceholder (raw : Text) : Option (Text × Text × Text) :=
  match splitOpen raw with
  | none => none
  | some (before, after) => (splitClose after).map fun (body, rest) => (before, body, rest)

theorem firstPlaceholder_eq_some_iff {raw before body rest : Text} :
    firstPlaceholder raw = some (before, body, rest) ↔
      ∃ after, splitOpen raw = some (before, after) ∧ splitClose after = some (body, rest) := by
  unfold firstPlaceholder
  cases splitOpen raw with
  | none => simp
  | some opened =>
      obtain ⟨first, after⟩ := opened
      simp only [Option.map_eq_some_iff, Option.some.injEq, Prod.mk.injEq]
      constructor
      · rintro ⟨⟨b, r⟩, hclose, rfl, rfl, rfl⟩
        exact ⟨after, ⟨rfl, rfl⟩, hclose⟩
      · rintro ⟨_, ⟨rfl, rfl⟩, hclose⟩
        exact ⟨(body, rest), hclose, rfl, rfl, rfl⟩

theorem length_of_firstPlaceholder {raw before body rest : Text}
    (h : firstPlaceholder raw = some (before, body, rest)) :
    raw.length = before.length + body.length + rest.length + 3 := by
  obtain ⟨after, hopen, hclose⟩ := firstPlaceholder_eq_some_iff.1 h
  have h₁ := length_of_splitOpen hopen
  have h₂ := length_of_splitClose hclose
  omega

/-- The default of a body; a body without one has the empty default. -/
def defaultOf (body : Text) : Text := (splitDefault body).2.getD []

theorem length_defaultOf_le (body : Text) : (defaultOf body).length ≤ body.length := by
  unfold defaultOf
  cases h : (splitDefault body).2 with
  | none => simp
  | some default => exact Nat.le_of_lt (length_snd_defaultAt h)

/-! ### Equations -/

section Equations

variable {scope : Scope} {chain : List Text} {raw before body rest key : Text} {memo : Memo}

theorem expand_eq :
    expand scope chain raw memo =
      match firstPlaceholder raw with
      | none => ⟨raw, false, memo⟩
      | some (before, body, rest) =>
        let here := evaluate scope chain body memo
        let there := expand scope chain rest here.memo
        ⟨before ++ here.value ++ there.value, here.cut || there.cut, there.memo⟩ := by
  rw [expand]
  split
  · rename_i hopen
    simp only [firstPlaceholder, hopen]
  · rename_i hopen
    split
    · rename_i hclose
      simp only [firstPlaceholder, hopen, hclose, Option.map_none]
    · rename_i hclose
      simp only [firstPlaceholder, hopen, hclose, Option.map_some]

theorem expand_of_none (h : firstPlaceholder raw = none) :
    expand scope chain raw memo = ⟨raw, false, memo⟩ := by
  rw [expand_eq, h]

theorem expand_of_some (h : firstPlaceholder raw = some (before, body, rest)) :
    expand scope chain raw memo =
      let here := evaluate scope chain body memo
      let there := expand scope chain rest here.memo
      ⟨before ++ here.value ++ there.value, here.cut || there.cut, there.memo⟩ := by
  rw [expand_eq, h]

theorem expand_nil : expand scope chain [] memo = ⟨[], false, memo⟩ :=
  expand_of_none rfl

/-- A key that is found is the end of it; the default is not looked at. -/
theorem evaluate_of_some {value : Text}
    (h : (find scope chain (Text.trim (expand scope chain (splitDefault body).1 memo).value)
      (expand scope chain (splitDefault body).1 memo).memo).value = some value) :
    evaluate scope chain body memo =
      let key := expand scope chain (splitDefault body).1 memo
      let found := find scope chain (Text.trim key.value) key.memo
      ⟨value, key.cut || found.cut, found.memo⟩ := by
  rw [evaluate]
  simp only [h]

theorem evaluate_of_none
    (h : (find scope chain (Text.trim (expand scope chain (splitDefault body).1 memo).value)
      (expand scope chain (splitDefault body).1 memo).memo).value = none) :
    evaluate scope chain body memo =
      let key := expand scope chain (splitDefault body).1 memo
      let found := find scope chain (Text.trim key.value) key.memo
      let other := expand scope chain (defaultOf body) found.memo
      ⟨other.value, key.cut || found.cut || other.cut, other.memo⟩ := by
  rw [evaluate]
  simp only [h, defaultOf]
  split
  · rename_i hdefault
    simp [hdefault, expand_nil]
  · rename_i hdefault
    simp [hdefault]

theorem find_nil :
    find scope chain [] memo =
      ⟨none, false, (memo.record (.asked [] chain)).record (.answered [] chain none)⟩ := by
  rw [find]
  simp

variable (hkey : key ≠ [])
include hkey

theorem find_of_mem (hchain : key ∈ chain) :
    find scope chain key memo =
      ⟨scope.fallback key, true,
        (memo.record (.asked key chain)).record (.answered key chain (scope.fallback key))⟩ := by
  rw [find]
  simp [hkey, hchain]

variable (hchain : key ∉ chain)
include hchain

theorem find_of_settled {value : Text} (hsettled : memo.settled.lookup key = some value) :
    find scope chain key memo =
      ⟨some value, false,
        (memo.record (.asked key chain)).record (.answered key chain (some value))⟩ := by
  rw [find]
  simp [hkey, hchain, hsettled]

variable (hsettled : memo.settled.lookup key = none)
include hsettled

theorem find_of_provisional {value : Text} (hprovisional : memo.provisional.lookup key = some value) :
    find scope chain key memo =
      ⟨some value, true,
        (memo.record (.asked key chain)).record (.answered key chain (some value))⟩ := by
  rw [find]
  simp [hkey, hchain, hsettled, hprovisional]

variable (hprovisional : memo.provisional.lookup key = none)
include hprovisional

theorem find_of_absent (habsent : scope.map.get? key = none) :
    find scope chain key memo =
      ⟨scope.fallback key, false,
        (memo.record (.asked key chain)).record (.answered key chain (scope.fallback key))⟩ := by
  rw [find]
  simp only [hkey, hchain, hsettled, hprovisional, Memo.settled_record, Memo.provisional_record,
    ↓reduceIte, ↓reduceDIte]
  split
  · rfl
  · rename_i hheld
    rw [habsent] at hheld
    cases hheld

/-- The memory in which the expansion of a key's own text starts. -/
theorem find_of_held (hheld : scope.map.get? key = some raw) :
    find scope chain key memo =
      let held := expand scope (key :: chain) raw
        ((memo.record (.asked key chain)).record (.expanded key))
      ⟨some held.value, held.cut,
        (held.memo.keep key held.value held.cut).record (.answered key chain (some held.value))⟩ := by
  rw [find]
  simp only [hkey, hchain, hsettled, hprovisional, Memo.settled_record, Memo.provisional_record,
    ↓reduceIte, ↓reduceDIte]
  split
  · rename_i habsent
    rw [hheld] at habsent
    cases habsent
  · rename_i _ hheld'
    obtain rfl : raw = _ := by simpa [hheld] using hheld'
    rfl

end Equations

/-- How a search is decided: by the key and the chain, by what is remembered of the key, settled or
provisional, or by what the map holds for it. -/
inductive SearchCase {α : Type} (chain : List Text) (key : Text) (settled provisional : Option α)
    (held : Option Text) : Prop where
  | blank (hkey : key = [])
  | onChain (hkey : key ≠ []) (hchain : key ∈ chain)
  | settled {value : α} (hkey : key ≠ []) (hchain : key ∉ chain) (hsettled : settled = some value)
  | provisional {value : α} (hkey : key ≠ []) (hchain : key ∉ chain) (hsettled : settled = none)
      (hprovisional : provisional = some value)
  | absent (hkey : key ≠ []) (hchain : key ∉ chain) (hsettled : settled = none)
      (hprovisional : provisional = none) (hheld : held = none)
  | held {raw : Text} (hkey : key ≠ []) (hchain : key ∉ chain) (hsettled : settled = none)
      (hprovisional : provisional = none) (hheld : held = some raw)

theorem search_cases {α : Type} (chain : List Text) (key : Text) (settled provisional : Option α)
    (held : Option Text) : SearchCase chain key settled provisional held := by
  by_cases hkey : key = []
  · exact .blank hkey
  by_cases hchain : key ∈ chain
  · exact .onChain hkey hchain
  cases settled with
  | some value => exact .settled hkey hchain rfl
  | none =>
      cases provisional with
      | some value => exact .provisional hkey hchain rfl rfl
      | none =>
          cases held with
          | none => exact .absent hkey hchain rfl rfl rfl
          | some raw => exact .held hkey hchain rfl rfl rfl

/-! ### Induction -/

/-- The calls of a resolution, as an induction: a text may use its first placeholder's body and what
follows it, a body its key, its default and every key on the same chain, and a key the text that the
map holds for it, with the key put on the chain. -/
theorem resolution_induction (scope : Scope) {ofText ofBody ofKey : List Text → Text → Prop}
    (plain : ∀ chain raw, firstPlaceholder raw = none → ofText chain raw)
    (placeholder : ∀ chain raw before body rest, firstPlaceholder raw = some (before, body, rest) →
      ofBody chain body → ofText chain rest → ofText chain raw)
    (body : ∀ chain body, ofText chain (splitDefault body).1 → (∀ key, ofKey chain key) →
      ofText chain (defaultOf body) → ofBody chain body)
    (key : ∀ chain key, (∀ raw, key ∉ chain → scope.map.get? key = some raw →
      ofText (key :: chain) raw) → ofKey chain key) :
    (∀ chain raw, ofText chain raw) ∧ (∀ chain body, ofBody chain body) ∧
      ∀ chain key, ofKey chain key := by
  -- on one chain, by the length of the text, once every key on the chain is settled
  have onChain : ∀ chain, (∀ k, ofKey chain k) →
      (∀ raw, ofText chain raw) ∧ ∀ b, ofBody chain b := by
    intro chain hkeys
    have bounded : ∀ n, (∀ raw, raw.length < n → ofText chain raw) ∧
        ∀ b, b.length < n → ofBody chain b := by
      intro n
      induction n with
      | zero => exact ⟨fun _ h => absurd h (Nat.not_lt_zero _), fun _ h => absurd h (Nat.not_lt_zero _)⟩
      | succ n ih =>
          have texts : ∀ raw, raw.length < n + 1 → ofText chain raw := by
            intro raw hlength
            cases hfirst : firstPlaceholder raw with
            | none => exact plain chain raw hfirst
            | some parts =>
                obtain ⟨before, b, rest⟩ := parts
                have hsum := length_of_firstPlaceholder hfirst
                exact placeholder chain raw before b rest hfirst (ih.2 b (by omega)) (ih.1 rest (by omega))
          refine ⟨texts, fun b hlength => body chain b (texts _ ?_) hkeys (texts _ ?_)⟩
          · exact Nat.lt_of_le_of_lt (length_fst_defaultAt 0 b) hlength
          · exact Nat.lt_of_le_of_lt (length_defaultOf_le b) hlength
    exact ⟨fun raw => (bounded (raw.length + 1)).1 raw (Nat.lt_succ_self _),
      fun b => (bounded (b.length + 1)).2 b (Nat.lt_succ_self _)⟩
  -- over the chains, by the number of map keys they leave free
  have keys : ∀ n chain, free scope chain < n → ∀ k, ofKey chain k := by
    intro n
    induction n with
    | zero => exact fun _ h => absurd h (Nat.not_lt_zero _)
    | succ n ih =>
        intro chain hfree k
        refine key chain k fun raw hchain hheld => ?_
        have hless := free_cons_lt hchain hheld
        exact (onChain (k :: chain) (ih (k :: chain) (by omega))).1 raw
  have every : ∀ chain k, ofKey chain k := fun chain => keys _ chain (Nat.lt_succ_self _)
  exact ⟨fun chain => (onChain chain (every chain)).1, fun chain => (onChain chain (every chain)).2, every⟩

end LayeredConfig.Placeholder
