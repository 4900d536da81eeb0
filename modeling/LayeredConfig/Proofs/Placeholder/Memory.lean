import LayeredConfig.Proofs.Placeholder.Plain

/-! What the memory of a resolution may hold, and why it shows in no result. A settled value is the
value of a stable key, and only unstable keys have provisional values. Three laws keep it so. What
ends uncut is what the plain evaluator reads. Where the plain evaluator reads uncut, the resolution
ends uncut with the same value, whatever it remembers. And under a chain of unstable keys two
resolutions whose provisional values agree run in lockstep, whatever they have settled: at a stable
key both come to its one value, at an unstable key neither has settled it. -/

namespace LayeredConfig.Placeholder

open Plain (Stable Unstable)

namespace Memo

/-- Every settled value is the value of a stable key. -/
def Faithful (scope : Scope) (memo : Memo) : Prop :=
  ∀ key value, memo.settled.lookup key = some value → Stable scope key value

/-- The memory is faithful, and unstable keys alone are held provisionally. -/
structure Sound (scope : Scope) (memo : Memo) : Prop where
  faithful : memo.Faithful scope
  provisional : ∀ key value, memo.provisional.lookup key = some value → Unstable scope key

section Faithful

variable {scope : Scope} {memo : Memo} {key value : Text}

theorem Faithful.record (h : memo.Faithful scope) (step : Step) : (memo.record step).Faithful scope := h

theorem Faithful.settle (h : memo.Faithful scope) (hstable : Stable scope key value) :
    (memo.settle key value).Faithful scope := by
  intro other found hlookup
  rw [settled_settle, List.lookup_cons] at hlookup
  by_cases hother : other = key
  · subst hother
    simp only [beq_self_eq_true, Option.some.injEq] at hlookup
    subst hlookup
    exact hstable
  · rw [beq_eq_false_iff_ne.2 hother] at hlookup
    exact h other found hlookup

end Faithful

section Sound

variable {scope : Scope} {memo : Memo} {key value : Text}

theorem sound_empty : Sound scope {} where
  faithful _ _ h := by cases h
  provisional _ _ h := by cases h

theorem Sound.record (h : memo.Sound scope) (step : Step) : (memo.record step).Sound scope :=
  ⟨h.faithful, h.provisional⟩

theorem Sound.renew (h : memo.Sound scope) : memo.renew.Sound scope :=
  ⟨h.faithful, fun _ _ hlookup => by cases hlookup⟩

theorem Sound.settle (h : memo.Sound scope) (hstable : Stable scope key value) :
    (memo.settle key value).Sound scope :=
  ⟨h.faithful.settle hstable, h.provisional⟩

theorem Sound.keep_true (h : memo.Sound scope) (hunstable : Unstable scope key) :
    (memo.keep key value true).Sound scope := by
  refine ⟨h.faithful, fun other found hlookup => ?_⟩
  rw [Memo.keep_true, List.lookup_cons] at hlookup
  by_cases hother : other = key
  · rw [hother]
    exact hunstable
  · rw [beq_eq_false_iff_ne.2 hother] at hlookup
    exact h.provisional other found hlookup

/-- A key that the map does not hold is not remembered. -/
theorem Sound.settled_of_absent (h : memo.Sound scope) (habsent : scope.map.get? key = none) :
    memo.settled.lookup key = none := by
  cases hlookup : memo.settled.lookup key with
  | none => rfl
  | some value =>
      obtain ⟨raw, hheld, _⟩ := h.faithful key value hlookup
      rw [habsent] at hheld
      cases hheld

theorem Sound.provisional_of_absent (h : memo.Sound scope) (habsent : scope.map.get? key = none) :
    memo.provisional.lookup key = none := by
  cases hlookup : memo.provisional.lookup key with
  | none => rfl
  | some value =>
      obtain ⟨raw, hheld, _⟩ := h.provisional key value hlookup
      rw [habsent] at hheld
      cases hheld

theorem Sound.settled_of_unstable (h : memo.Sound scope) (hunstable : Unstable scope key) :
    memo.settled.lookup key = none := by
  cases hlookup : memo.settled.lookup key with
  | none => rfl
  | some value => exact absurd hunstable (h.faithful key value hlookup).not_unstable

theorem Sound.provisional_of_stable (h : memo.Sound scope) (hstable : Stable scope key value) :
    memo.provisional.lookup key = none := by
  cases hlookup : memo.provisional.lookup key with
  | none => rfl
  | some found => exact absurd (h.provisional key found hlookup) hstable.not_unstable

end Sound

end Memo

/-! ### What ends uncut is the plain reading -/

/-- The memory stays faithful, and an uncut end is the end that the plain evaluator comes to. -/
structure Justified (scope : Scope) {α : Type} (outcome : Outcome α) (reading : Reading α) : Prop where
  faithful : outcome.memo.Faithful scope
  uncut : outcome.cut = false → reading = ⟨outcome.value, false⟩

/-- From every faithful memory the run is justified by the reading. -/
def Justifies (scope : Scope) {α : Type} (reading : Reading α) (run : Memo → Outcome α) : Prop :=
  ∀ memo : Memo, memo.Faithful scope → Justified scope (run memo) reading

section Justifies

variable {scope : Scope} {chain : List Text} {raw before body rest key : Text}

theorem justifies_plain (hfirst : firstPlaceholder raw = none) :
    Justifies scope (Plain.expand scope [] raw) (expand scope chain raw) := by
  intro memo hmemo
  rw [expand_of_none hfirst, Plain.expand_of_none hfirst]
  exact ⟨hmemo, fun _ => rfl⟩

theorem justifies_placeholder (hfirst : firstPlaceholder raw = some (before, body, rest))
    (hbody : Justifies scope (Plain.evaluate scope [] body) (evaluate scope chain body))
    (hrest : Justifies scope (Plain.expand scope [] rest) (expand scope chain rest)) :
    Justifies scope (Plain.expand scope [] raw) (expand scope chain raw) := by
  intro memo hmemo
  have hhere := hbody memo hmemo
  have hthere := hrest _ hhere.faithful
  rw [expand_of_some hfirst, Plain.expand_of_some hfirst]
  refine ⟨hthere.faithful, fun hcut => ?_⟩
  obtain ⟨hcutHere, hcutThere⟩ := Bool.or_eq_false_iff.1 hcut
  rw [hhere.uncut hcutHere, hthere.uncut hcutThere]
  rfl

theorem justifies_body
    (htext : Justifies scope (Plain.expand scope [] (splitDefault body).1)
      (expand scope chain (splitDefault body).1))
    (hfind : ∀ key, Justifies scope (Plain.find scope [] key) (find scope chain key))
    (hdefault : Justifies scope (Plain.expand scope [] (defaultOf body))
      (expand scope chain (defaultOf body))) :
    Justifies scope (Plain.evaluate scope [] body) (evaluate scope chain body) := by
  intro memo hmemo
  have hkey := htext memo hmemo
  have hfound := hfind (Text.trim (expand scope chain (splitDefault body).1 memo).value) _ hkey.faithful
  rw [Plain.evaluate_eq]
  cases hvalue : (find scope chain (Text.trim (expand scope chain (splitDefault body).1 memo).value)
      (expand scope chain (splitDefault body).1 memo).memo).value with
  | some value =>
      rw [evaluate_of_some hvalue]
      refine ⟨hfound.faithful, fun hcut => ?_⟩
      obtain ⟨hcutKey, hcutFound⟩ := Bool.or_eq_false_iff.1 hcut
      simp only [hkey.uncut hcutKey, hfound.uncut hcutFound, hvalue, Bool.or_self]
  | none =>
      have hother := hdefault _ hfound.faithful
      rw [evaluate_of_none hvalue]
      refine ⟨hother.faithful, fun hcut => ?_⟩
      obtain ⟨hcutBoth, hcutOther⟩ := Bool.or_eq_false_iff.1 hcut
      obtain ⟨hcutKey, hcutFound⟩ := Bool.or_eq_false_iff.1 hcutBoth
      simp only [hkey.uncut hcutKey, hfound.uncut hcutFound, hvalue, hother.uncut hcutOther, Bool.or_self]

/-- A key's own text: uncut from the empty chain it makes the key stable, and so it may be settled. -/
theorem justifies_held (hkey : key ≠ []) (hheld : scope.map.get? key = some raw)
    (hraw : Justifies scope (Plain.expand scope [] raw) (expand scope (key :: chain) raw)) :
    Justifies scope (Plain.find scope [] key) fun memo =>
      let held := expand scope (key :: chain) raw memo
      ⟨some held.value, held.cut, held.memo.keep key held.value held.cut⟩ := by
  intro memo hmemo
  have hexpanded := hraw memo hmemo
  dsimp only
  cases hcut : (expand scope (key :: chain) raw memo).cut with
  | true => exact ⟨hexpanded.faithful, fun h => by cases h⟩
  | false =>
      have hread := hexpanded.uncut hcut
      have hstable := Plain.stable_of_uncut_nil hheld (congrArg Reading.cut hread)
      rw [hread] at hstable
      exact ⟨hexpanded.faithful.settle hstable, fun _ =>
        hstable.find_eq hkey (List.forall_mem_nil _)⟩

theorem justifies_key
    (ih : ∀ raw, key ∉ chain → scope.map.get? key = some raw →
      Justifies scope (Plain.expand scope [] raw) (expand scope (key :: chain) raw)) :
    Justifies scope (Plain.find scope [] key) (find scope chain key) := by
  intro memo hmemo
  have hasked := hmemo.record (.asked key chain)
  cases search_cases chain key (memo.settled.lookup key) (memo.provisional.lookup key)
      (scope.map.get? key) with
  | blank hkey =>
      subst hkey
      rw [find_nil, Plain.find_nil]
      exact ⟨hasked.record _, fun _ => rfl⟩
  | onChain hkey hchain =>
      rw [find_of_mem hkey hchain]
      exact ⟨hasked.record _, fun hcut => by cases hcut⟩
  | @settled value hkey hchain hsettled =>
      have hstable := hmemo key value hsettled
      rw [find_of_settled hkey hchain hsettled]
      exact ⟨hasked.record _, fun _ => hstable.find_eq hkey (List.forall_mem_nil _)⟩
  | provisional hkey hchain hsettled hprovisional =>
      rw [find_of_provisional hkey hchain hsettled hprovisional]
      exact ⟨hasked.record _, fun hcut => by cases hcut⟩
  | absent hkey hchain hsettled hprovisional hheld =>
      rw [find_of_absent hkey hchain hsettled hprovisional hheld,
        Plain.find_of_absent hkey List.not_mem_nil hheld]
      exact ⟨hasked.record _, fun _ => rfl⟩
  | @held raw hkey hchain hsettled hprovisional hheld =>
      have hown := justifies_held hkey hheld (ih raw hchain hheld) _ (hasked.record (.expanded key))
      rw [find_of_held hkey hchain hsettled hprovisional hheld]
      exact ⟨hown.faithful.record _, hown.uncut⟩

end Justifies

theorem justified (scope : Scope) :
    (∀ chain raw, Justifies scope (Plain.expand scope [] raw) (expand scope chain raw)) ∧
    (∀ chain body, Justifies scope (Plain.evaluate scope [] body) (evaluate scope chain body)) ∧
    (∀ chain key, Justifies scope (Plain.find scope [] key) (find scope chain key)) := by
  refine resolution_induction scope ?plain ?placeholder ?body ?key
  case plain => exact fun _ _ hfirst => justifies_plain hfirst
  case placeholder => exact fun _ _ _ _ _ hfirst hbody hrest => justifies_placeholder hfirst hbody hrest
  case body => exact fun _ _ htext hfind hdefault => justifies_body htext hfind hdefault
  case key => exact fun _ _ ih => justifies_key ih

/-- The expansion of an unstable key's text is cut, under whatever chain and memory. -/
theorem cut_of_unstable {scope : Scope} {key raw : Text} {memo : Memo} (chain : List Text)
    (hunstable : Unstable scope key) (hheld : scope.map.get? key = some raw)
    (hmemo : memo.Faithful scope) : (expand scope chain raw memo).cut = true := by
  cases hcut : (expand scope chain raw memo).cut with
  | true => rfl
  | false =>
      have hread := ((justified scope).1 chain raw memo hmemo).uncut hcut
      have hstable := Plain.stable_of_uncut_nil hheld (congrArg Reading.cut hread)
      exact absurd hunstable hstable.not_unstable

/-! ### Where the plain reading is uncut -/

/-- The end is uncut and has the value read, and the provisional values are those of the start. -/
structure Follows (scope : Scope) {α : Type} (start : Memo) (outcome : Outcome α) (reading : Reading α) :
    Prop where
  value : outcome.value = reading.value
  uncut : outcome.cut = false
  sound : outcome.memo.Sound scope
  provisional : outcome.memo.provisional = start.provisional

/-- If the reading is uncut, the run follows it from every sound memory. -/
def Guides (scope : Scope) {α : Type} (reading : Reading α) (run : Memo → Outcome α) : Prop :=
  reading.cut = false → ∀ memo : Memo, memo.Sound scope → Follows scope memo (run memo) reading

section Guides

variable {scope : Scope} {chain : List Text} {raw before body rest key : Text}

theorem guides_plain (hfirst : firstPlaceholder raw = none) :
    Guides scope (Plain.expand scope chain raw) (expand scope chain raw) := by
  intro _ memo hmemo
  rw [expand_of_none hfirst, Plain.expand_of_none hfirst]
  exact ⟨rfl, rfl, hmemo, rfl⟩

theorem guides_placeholder (hfirst : firstPlaceholder raw = some (before, body, rest))
    (hbody : Guides scope (Plain.evaluate scope chain body) (evaluate scope chain body))
    (hrest : Guides scope (Plain.expand scope chain rest) (expand scope chain rest)) :
    Guides scope (Plain.expand scope chain raw) (expand scope chain raw) := by
  intro hcut memo hmemo
  obtain ⟨hcutBody, hcutRest⟩ := Plain.uncut_of_expand hfirst hcut
  have hhere := hbody hcutBody memo hmemo
  have hthere := hrest hcutRest _ hhere.sound
  rw [expand_of_some hfirst, Plain.expand_of_some hfirst]
  refine ⟨?_, ?_, hthere.sound, hthere.provisional.trans hhere.provisional⟩
  · simp only [hhere.value, hthere.value]
  · simp only [hhere.uncut, hthere.uncut, Bool.or_self]

theorem guides_body
    (htext : Guides scope (Plain.expand scope chain (splitDefault body).1)
      (expand scope chain (splitDefault body).1))
    (hfind : ∀ key, Guides scope (Plain.find scope chain key) (find scope chain key))
    (hdefault : Guides scope (Plain.expand scope chain (defaultOf body))
      (expand scope chain (defaultOf body))) :
    Guides scope (Plain.evaluate scope chain body) (evaluate scope chain body) := by
  intro hcut memo hmemo
  obtain ⟨hcutKey, hcutFound, hcutOther⟩ := Plain.uncut_of_evaluate hcut
  have hkey := htext hcutKey memo hmemo
  have hfound := hfind _ hcutFound _ hkey.sound
  rw [← hkey.value] at hfound hcutOther
  rw [Plain.evaluate_eq]
  dsimp only
  rw [← hkey.value, ← hfound.value]
  cases hvalue : (find scope chain (Text.trim (expand scope chain (splitDefault body).1 memo).value)
      (expand scope chain (splitDefault body).1 memo).memo).value with
  | some value =>
      rw [evaluate_of_some hvalue]
      refine ⟨rfl, ?_, hfound.sound, hfound.provisional.trans hkey.provisional⟩
      simp only [hkey.uncut, hfound.uncut, Bool.or_self]
  | none =>
      have hother := hdefault (hcutOther (hfound.value.symm.trans hvalue)) _ hfound.sound
      rw [evaluate_of_none hvalue]
      refine ⟨hother.value, ?_, hother.sound,
        hother.provisional.trans (hfound.provisional.trans hkey.provisional)⟩
      simp only [hkey.uncut, hfound.uncut, hother.uncut, Bool.or_self]

theorem guides_key
    (ih : ∀ raw, key ∉ chain → scope.map.get? key = some raw →
      Guides scope (Plain.expand scope (key :: chain) raw) (expand scope (key :: chain) raw)) :
    Guides scope (Plain.find scope chain key) (find scope chain key) := by
  intro hcut memo hmemo
  have hasked := hmemo.record (.asked key chain)
  by_cases hkey : key = []
  · subst hkey
    rw [find_nil, Plain.find_nil]
    exact ⟨rfl, rfl, hasked.record _, rfl⟩
  have hchain := Plain.not_mem_of_find hkey hcut
  cases hheld : scope.map.get? key with
  | none =>
      rw [find_of_absent hkey hchain (hmemo.settled_of_absent hheld) (hmemo.provisional_of_absent hheld)
          hheld, Plain.find_of_absent hkey hchain hheld]
      exact ⟨rfl, rfl, hasked.record _, rfl⟩
  | some raw =>
      rw [Plain.find_of_held hkey hchain hheld] at hcut ⊢
      have hstable := Plain.stable_of_uncut hheld hcut
      cases hsettled : memo.settled.lookup key with
      | some value =>
          have hvalue := (hmemo.faithful key value hsettled).unique hstable
          rw [find_of_settled hkey hchain hsettled, hvalue]
          exact ⟨rfl, rfl, hasked.record _, rfl⟩
      | none =>
          have hown := ih raw hchain hheld hcut _ (hasked.record (.expanded key))
          rw [find_of_held hkey hchain hsettled (hmemo.provisional_of_stable hstable) hheld]
          dsimp only
          rw [hown.uncut, hown.value, Memo.keep_false]
          exact ⟨rfl, rfl, (hown.sound.settle hstable).record _, hown.provisional⟩

end Guides

theorem follows (scope : Scope) :
    (∀ chain raw, Guides scope (Plain.expand scope chain raw) (expand scope chain raw)) ∧
    (∀ chain body, Guides scope (Plain.evaluate scope chain body) (evaluate scope chain body)) ∧
    (∀ chain key, Guides scope (Plain.find scope chain key) (find scope chain key)) := by
  refine resolution_induction scope ?plain ?placeholder ?body ?key
  case plain => exact fun _ _ hfirst => guides_plain hfirst
  case placeholder => exact fun _ _ _ _ _ hfirst hbody hrest => guides_placeholder hfirst hbody hrest
  case body => exact fun _ _ htext hfind hdefault => guides_body htext hfind hdefault
  case key => exact fun _ _ ih => guides_key ih

/-! ### Lockstep under unstable keys -/

/-- Two memories that hold the same values provisionally; what they have settled may differ. -/
structure Memo.Alike (scope : Scope) (memo other : Memo) : Prop where
  left : memo.Sound scope
  right : other.Sound scope
  provisional : memo.provisional = other.provisional

structure Lockstep (scope : Scope) {α : Type} (outcome other : Outcome α) : Prop where
  value : outcome.value = other.value
  cut : outcome.cut = other.cut
  memo : outcome.memo.Alike scope other.memo

/-- What is settled at the start does not show. -/
def Indifferent (scope : Scope) {α : Type} (run : Memo → Outcome α) : Prop :=
  ∀ memo other : Memo, memo.Alike scope other → Lockstep scope (run memo) (run other)

section Lockstep

variable {scope : Scope} {memo other : Memo} {chain : List Text} {raw before body rest key value : Text}

theorem Memo.Alike.record (h : memo.Alike scope other) (step : Step) :
    (memo.record step).Alike scope (other.record step) :=
  ⟨h.left.record step, h.right.record step, h.provisional⟩

theorem Memo.Alike.keep_true (h : memo.Alike scope other) (hunstable : Unstable scope key) :
    (memo.keep key value true).Alike scope (other.keep key value true) :=
  ⟨h.left.keep_true hunstable, h.right.keep_true hunstable, by
    simp only [Memo.keep_true, h.provisional]⟩

theorem indifferent_plain (hfirst : firstPlaceholder raw = none) :
    Indifferent scope (expand scope chain raw) := by
  intro memo other halike
  rw [expand_of_none hfirst, expand_of_none hfirst]
  exact ⟨rfl, rfl, halike⟩

theorem indifferent_placeholder (hfirst : firstPlaceholder raw = some (before, body, rest))
    (hbody : Indifferent scope (evaluate scope chain body))
    (hrest : Indifferent scope (expand scope chain rest)) :
    Indifferent scope (expand scope chain raw) := by
  intro memo other halike
  have hhere := hbody memo other halike
  have hthere := hrest _ _ hhere.memo
  rw [expand_of_some hfirst, expand_of_some hfirst]
  refine ⟨?_, ?_, hthere.memo⟩
  · simp only [hhere.value, hthere.value]
  · simp only [hhere.cut, hthere.cut]

theorem indifferent_body (htext : Indifferent scope (expand scope chain (splitDefault body).1))
    (hfind : ∀ key, Indifferent scope (find scope chain key))
    (hdefault : Indifferent scope (expand scope chain (defaultOf body))) :
    Indifferent scope (evaluate scope chain body) := by
  intro memo other halike
  have hkey := htext memo other halike
  have hfound := hfind (Text.trim (expand scope chain (splitDefault body).1 memo).value) _ _ hkey.memo
  have hfoundValue := hfound.value
  cases hvalue : (find scope chain (Text.trim (expand scope chain (splitDefault body).1 memo).value)
      (expand scope chain (splitDefault body).1 memo).memo).value with
  | some value =>
      have hvalue' := hfoundValue.symm.trans hvalue
      rw [hkey.value] at hfound hvalue'
      rw [evaluate_of_some hvalue, evaluate_of_some hvalue']
      dsimp only
      rw [hkey.value]
      refine ⟨rfl, ?_, hfound.memo⟩
      simp only [hkey.cut, hfound.cut]
  | none =>
      have hvalue' := hfoundValue.symm.trans hvalue
      rw [hkey.value] at hfound hvalue'
      have hother := hdefault _ _ hfound.memo
      rw [evaluate_of_none hvalue, evaluate_of_none hvalue']
      dsimp only
      rw [hkey.value]
      refine ⟨hother.value, ?_, hother.memo⟩
      simp only [hkey.cut, hfound.cut, hother.cut]

/-- Both runs come to the one value of a stable key, found settled or expanded anew. -/
theorem indifferent_of_stable (hstable : Stable scope key value) (hkey : key ≠ [])
    (hchain : ∀ key ∈ chain, Unstable scope key) : Indifferent scope (find scope chain key) := by
  intro memo other halike
  have hcut := congrArg Reading.cut (hstable.find_eq hkey hchain)
  have hleft := (follows scope).2.2 chain key hcut memo halike.left
  have hright := (follows scope).2.2 chain key hcut other halike.right
  refine ⟨hleft.value.trans hright.value.symm, hleft.uncut.trans hright.uncut.symm, ?_⟩
  exact ⟨hleft.sound, hright.sound,
    hleft.provisional.trans (halike.provisional.trans hright.provisional.symm)⟩

/-- Neither run has settled an unstable key, so both go by what is held provisionally. -/
theorem indifferent_of_unstable (hunstable : Unstable scope key) (hkey : key ≠ []) (hmem : key ∉ chain)
    (hheld : scope.map.get? key = some raw) (hraw : Indifferent scope (expand scope (key :: chain) raw)) :
    Indifferent scope (find scope chain key) := by
  intro memo other halike
  have hasked := halike.record (.asked key chain)
  have hsettled := halike.left.settled_of_unstable hunstable
  have hsettled' := halike.right.settled_of_unstable hunstable
  cases hprovisional : memo.provisional.lookup key with
  | some value =>
      have hprovisional' := halike.provisional ▸ hprovisional
      rw [find_of_provisional hkey hmem hsettled hprovisional,
        find_of_provisional hkey hmem hsettled' hprovisional']
      exact ⟨rfl, rfl, hasked.record _⟩
  | none =>
      have hprovisional' := halike.provisional ▸ hprovisional
      have hexpanded := hasked.record (.expanded key)
      have hrun := hraw _ _ hexpanded
      have hcut := cut_of_unstable (key :: chain) hunstable hheld hexpanded.right.faithful
      rw [find_of_held hkey hmem hsettled hprovisional hheld,
        find_of_held hkey hmem hsettled' hprovisional' hheld]
      dsimp only
      rw [hrun.value, hrun.cut, hcut]
      exact ⟨rfl, rfl, (hrun.memo.keep_true hunstable).record _⟩

theorem indifferent_key (hchain : ∀ key ∈ chain, Unstable scope key)
    (ih : ∀ raw, key ∉ chain → scope.map.get? key = some raw → Unstable scope key →
      Indifferent scope (expand scope (key :: chain) raw)) : Indifferent scope (find scope chain key) := by
  by_cases hkey : key = []
  · intro memo other halike
    subst hkey
    rw [find_nil, find_nil]
    exact ⟨rfl, rfl, (halike.record _).record _⟩
  by_cases hmem : key ∈ chain
  · intro memo other halike
    rw [find_of_mem hkey hmem, find_of_mem hkey hmem]
    exact ⟨rfl, rfl, (halike.record _).record _⟩
  cases hheld : scope.map.get? key with
  | none =>
      intro memo other halike
      rw [find_of_absent hkey hmem (halike.left.settled_of_absent hheld)
          (halike.left.provisional_of_absent hheld) hheld,
        find_of_absent hkey hmem (halike.right.settled_of_absent hheld)
          (halike.right.provisional_of_absent hheld) hheld]
      exact ⟨rfl, rfl, (halike.record _).record _⟩
  | some raw =>
      rcases Plain.stable_or_unstable hheld with hstable | hunstable
      · exact indifferent_of_stable hstable hkey hchain
      · exact indifferent_of_unstable hunstable hkey hmem hheld (ih raw hmem hheld hunstable)

end Lockstep

theorem lockstep (scope : Scope) :
    (∀ chain raw, (∀ key ∈ chain, Unstable scope key) → Indifferent scope (expand scope chain raw)) ∧
    (∀ chain body, (∀ key ∈ chain, Unstable scope key) → Indifferent scope (evaluate scope chain body)) ∧
    (∀ chain key, (∀ key ∈ chain, Unstable scope key) → Indifferent scope (find scope chain key)) := by
  refine resolution_induction scope ?plain ?placeholder ?body ?key
  case plain => exact fun _ _ hfirst _ => indifferent_plain hfirst
  case placeholder =>
    intro chain raw before body rest hfirst hbody hrest hchain
    exact indifferent_placeholder hfirst (hbody hchain) (hrest hchain)
  case body =>
    intro chain body htext hfind hdefault hchain
    exact indifferent_body (htext hchain) (fun key => hfind key hchain) (hdefault hchain)
  case key =>
    intro chain key ih hchain
    refine indifferent_key hchain fun raw hmem hheld hunstable => ih raw hmem hheld ?_
    exact List.forall_mem_cons.2 ⟨hunstable, hchain⟩

end LayeredConfig.Placeholder
