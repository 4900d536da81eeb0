import LayeredConfig.Proofs.Placeholder.Bare

/-! What a resolution depends on. It learns of its scope only by searching: a search reads the map at its
key, and the fallback source when the map does not hold the key or the key is on its own chain. Another
scope that answers the recorded searches alike is not told apart by the resolution: from the same memory
it takes the same steps to the same end. -/

namespace LayeredConfig.Placeholder

/-- The two scopes answer the search alike: their maps agree on its key, and their fallback sources do
where the map is passed over. -/
structure Agree (scope other : Scope) (search : Text × List Text) : Prop where
  map : scope.map.get? search.1 = other.map.get? search.1
  fallback : scope.map.get? search.1 = none ∨ search.1 ∈ search.2 →
    scope.fallback search.1 = other.fallback search.1

/-- No search on record is forgotten, and the other end is the same when the scopes agree on the searches
recorded at the end. -/
structure Mirrored (scope other : Scope) {α : Type} (start : Memo) (outcome outcome' : Outcome α) :
    Prop where
  kept : start.searches ⊆ outcome.memo.searches
  same : (∀ search ∈ outcome.memo.searches, Agree scope other search) → outcome' = outcome

/-- From every memory the other run mirrors the run. -/
def Mirrors (scope other : Scope) {α : Type} (run run' : Memo → Outcome α) : Prop :=
  ∀ memo, Mirrored scope other memo (run memo) (run' memo)

section Mirrors

variable {scope other : Scope} {chain : List Text} {raw before body rest key : Text}

theorem mirrors_plain (hfirst : firstPlaceholder raw = none) :
    Mirrors scope other (expand scope chain raw) (expand other chain raw) := by
  intro memo
  rw [expand_of_none hfirst, expand_of_none hfirst]
  exact ⟨List.Subset.refl _, fun _ => rfl⟩

theorem mirrors_placeholder (hfirst : firstPlaceholder raw = some (before, body, rest))
    (hbody : Mirrors scope other (evaluate scope chain body) (evaluate other chain body))
    (hrest : Mirrors scope other (expand scope chain rest) (expand other chain rest)) :
    Mirrors scope other (expand scope chain raw) (expand other chain raw) := by
  intro memo
  have hhere := hbody memo
  have hthere := hrest (evaluate scope chain body memo).memo
  rw [expand_of_some hfirst, expand_of_some hfirst]
  refine ⟨List.Subset.trans hhere.kept hthere.kept, fun hagree => ?_⟩
  rw [hhere.same fun search hmem => hagree search (hthere.kept hmem)]
  dsimp only
  rw [hthere.same hagree]

theorem mirrors_body
    (htext : Mirrors scope other (expand scope chain (splitDefault body).1)
      (expand other chain (splitDefault body).1))
    (hfind : ∀ key, Mirrors scope other (find scope chain key) (find other chain key))
    (hdefault : Mirrors scope other (expand scope chain (defaultOf body))
      (expand other chain (defaultOf body))) :
    Mirrors scope other (evaluate scope chain body) (evaluate other chain body) := by
  intro memo
  have hkey := htext memo
  have hfound := hfind (Text.trim (expand scope chain (splitDefault body).1 memo).value)
    (expand scope chain (splitDefault body).1 memo).memo
  have hkept := List.Subset.trans hkey.kept hfound.kept
  cases hvalue : (find scope chain (Text.trim (expand scope chain (splitDefault body).1 memo).value)
      (expand scope chain (splitDefault body).1 memo).memo).value with
  | some value =>
      rw [evaluate_of_some hvalue]
      refine ⟨hkept, fun hagree => ?_⟩
      have hsameKey := hkey.same fun search hmem => hagree search (hfound.kept hmem)
      have hsameFound := hfound.same hagree
      rw [← hsameFound, ← hsameKey] at hvalue
      rw [evaluate_of_some hvalue, hsameKey]
      dsimp only
      rw [hsameFound]
  | none =>
      have hother := hdefault (find scope chain
        (Text.trim (expand scope chain (splitDefault body).1 memo).value)
        (expand scope chain (splitDefault body).1 memo).memo).memo
      rw [evaluate_of_none hvalue]
      refine ⟨List.Subset.trans hkept hother.kept, fun hagree => ?_⟩
      have hsameFound := hfound.same fun search hmem => hagree search (hother.kept hmem)
      have hsameKey := hkey.same fun search hmem => hagree search (hother.kept (hfound.kept hmem))
      rw [← hsameFound, ← hsameKey] at hvalue
      rw [evaluate_of_none hvalue, hsameKey]
      dsimp only
      rw [hsameFound, hother.same hagree]

theorem mirrors_key
    (ih : ∀ raw, key ∉ chain → scope.map.get? key = some raw →
      Mirrors scope other (expand scope (key :: chain) raw) (expand other (key :: chain) raw)) :
    Mirrors scope other (find scope chain key) (find other chain key) := by
  intro memo
  have hrecorded : memo.searches ⊆ (key, chain) :: memo.searches := List.subset_cons_self _ _
  cases search_cases chain key (memo.settled.lookup key) (memo.provisional.lookup key)
      (scope.map.get? key) with
  | blank hkey =>
      subst hkey
      rw [find_nil, find_nil]
      exact ⟨hrecorded, fun _ => rfl⟩
  | onChain hkey hchain =>
      rw [find_of_mem hkey hchain, find_of_mem hkey hchain]
      refine ⟨hrecorded, fun hagree => ?_⟩
      rw [(hagree (key, chain) List.mem_cons_self).fallback (Or.inr hchain)]
  | settled hkey hchain hsettled =>
      rw [find_of_settled hkey hchain hsettled, find_of_settled hkey hchain hsettled]
      exact ⟨hrecorded, fun _ => rfl⟩
  | provisional hkey hchain hsettled hprovisional =>
      rw [find_of_provisional hkey hchain hsettled hprovisional,
        find_of_provisional hkey hchain hsettled hprovisional]
      exact ⟨hrecorded, fun _ => rfl⟩
  | absent hkey hchain hsettled hprovisional hheld =>
      rw [find_of_absent hkey hchain hsettled hprovisional hheld]
      refine ⟨hrecorded, fun hagree => ?_⟩
      have hsearch := hagree (key, chain) List.mem_cons_self
      rw [find_of_absent hkey hchain hsettled hprovisional (hsearch.map.symm.trans hheld),
        hsearch.fallback (Or.inl hheld)]
  | @held raw hkey hchain hsettled hprovisional hheld =>
      have hraw := ih raw hchain hheld ((memo.record (.asked key chain)).record (.expanded key))
      rw [find_of_held hkey hchain hsettled hprovisional hheld]
      refine ⟨?_, fun hagree => ?_⟩
      · simpa only [Memo.searches_answered, Memo.searches_keep] using
          List.Subset.trans hrecorded hraw.kept
      · simp only [Memo.searches_answered, Memo.searches_keep] at hagree
        have hsearch := hagree (key, chain) (hraw.kept List.mem_cons_self)
        rw [find_of_held hkey hchain hsettled hprovisional (hsearch.map.symm.trans hheld)]
        dsimp only
        rw [hraw.same hagree]

end Mirrors

theorem mirrors (scope other : Scope) :
    (∀ chain raw, Mirrors scope other (expand scope chain raw) (expand other chain raw)) ∧
    (∀ chain body, Mirrors scope other (evaluate scope chain body) (evaluate other chain body)) ∧
    (∀ chain key, Mirrors scope other (find scope chain key) (find other chain key)) := by
  refine resolution_induction scope ?plain ?placeholder ?body ?key
  case plain => exact fun _ _ hfirst => mirrors_plain hfirst
  case placeholder => exact fun _ _ _ _ _ hfirst hbody hrest => mirrors_placeholder hfirst hbody hrest
  case body => exact fun _ _ htext hfind hdefault => mirrors_body htext hfind hdefault
  case key => exact fun _ _ ih => mirrors_key ih

/-- A fresh evaluator over a scope that answers the recorded searches alike resolves the text to the same
value, and takes the same steps. -/
theorem resolve_eq_of_agree (scope other : Scope) (raw : Text)
    (hmap : ∀ search ∈ (Evaluator.resolve { scope } raw).2.memo.searches,
      scope.map.get? search.1 = other.map.get? search.1)
    (hfallback : ∀ search ∈ (Evaluator.resolve { scope } raw).2.memo.searches,
      scope.map.get? search.1 = none ∨ search.1 ∈ search.2 →
        scope.fallback search.1 = other.fallback search.1) :
    (Evaluator.resolve { scope := other } raw).1 = (Evaluator.resolve { scope } raw).1 ∧
    (Evaluator.resolve { scope := other } raw).2.memo = (Evaluator.resolve { scope } raw).2.memo := by
  have hsame := ((mirrors scope other).1 [] raw (Memo.renew {})).same fun search hmem =>
    ⟨hmap search hmem, hfallback search hmem⟩
  exact ⟨congrArg Outcome.value hsame, congrArg Outcome.memo hsame⟩

/-- A key that refers to itself and that the fallback source supplies. -/
def port : Scope where
  map := .ofList [("port".toList, "${port}".toList)]
  fallback := .ofPairs [("port".toList, "98".toList), ("host".toList, "a".toList)]

/-- The same for the key, with another entry and without the other property. -/
def portAndHost : Scope where
  map := .ofList [("host".toList, "b".toList), ("port".toList, "${port}".toList)]
  fallback := .ofPairs [("port".toList, "98".toList)]

theorem searches_port : (Evaluator.resolve { scope := port } "${port}".toList).2.memo.searches =
    [("port".toList, ["port".toList]), ("port".toList, [])] := by
  have hnil : ¬opening <:+: [] := by decide
  have hbare : Bare "port".toList := ⟨by decide, by decide, by decide⟩
  have hheld : port.map.get? "port".toList = some ([] ++ (opening ++ ("port".toList ++ ['}']))) := by decide
  have hne : "port".toList ≠ [] := by decide
  have htrim : Text.trim "port".toList = "port".toList := by decide
  change (expand port [] ([] ++ (opening ++ ("port".toList ++ ['}']))) (Memo.renew {})).memo.searches = _
  rw [expand_reference hnil hbare hnil]
  dsimp only
  rw [htrim, find_of_held hne List.not_mem_nil rfl rfl hheld, expand_reference hnil hbare hnil]
  dsimp only
  rw [htrim, find_of_mem hne List.mem_cons_self]
  rfl

theorem resolve_port_of_agree :
    (∀ search ∈ (Evaluator.resolve { scope := port } "${port}".toList).2.memo.searches,
      port.map.get? search.1 = portAndHost.map.get? search.1) ∧
    (∀ search ∈ (Evaluator.resolve { scope := port } "${port}".toList).2.memo.searches,
      port.map.get? search.1 = none ∨ search.1 ∈ search.2 →
        port.fallback search.1 = portAndHost.fallback search.1) ∧
    (Evaluator.resolve { scope := portAndHost } "${port}".toList).1 =
      (Evaluator.resolve { scope := port } "${port}".toList).1 := by
  have hmap : ∀ search ∈ (Evaluator.resolve { scope := port } "${port}".toList).2.memo.searches,
      port.map.get? search.1 = portAndHost.map.get? search.1 := by
    rw [searches_port]
    decide
  have hfallback : ∀ search ∈ (Evaluator.resolve { scope := port } "${port}".toList).2.memo.searches,
      port.map.get? search.1 = none ∨ search.1 ∈ search.2 →
        port.fallback search.1 = portAndHost.fallback search.1 := by
    rw [searches_port]
    decide
  exact ⟨hmap, hfallback, (resolve_eq_of_agree port portAndHost _ hmap hfallback).1⟩

end LayeredConfig.Placeholder
