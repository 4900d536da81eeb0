import LayeredConfig.Proofs.Placeholder.Bare
import LayeredConfig.Proofs.Placeholder.Transparency
import LayeredConfig.Session.Basic

/-! What a session looks up is what it reports. A search from no chain puts the key on the chain before
it expands the map's text, and the resolution of the whole map starts the entry with that same chain;
so both give the entry's value, on a cycle too. -/

namespace LayeredConfig.Session

open Placeholder

/-- A look-up gives what the session's result reports for the trimmed key, and asks the fallback for a key
that the map does not have. -/
theorem lookup_eq (session : Session) (key : Text) :
    session.lookup key =
      if Text.trim key = [] then none
      else (session.resolved.get? (Text.trim key)).or (session.fallback (Text.trim key)) := by
  rw [lookup, Evaluator.lookup_eq, resolved, get?_resolveMap]

/-- A key that the map does not have lists what the fallback source says. -/
theorem listed_of_absent {session : Session} {key : Text} (hne : Text.trim key ≠ [])
    (habsent : session.map.get? (Text.trim key) = none) :
    session.listed key = ((session.fallback (Text.trim key)).map PathList.split).getD [] := by
  rw [listed, lookup_eq, if_neg hne, resolved, get?_resolveMap, habsent, Option.map_none, Option.none_or]

/-- A key of the session's map is looked up to the value that the session's result reports for it, and
lists the names in that value; a placeholder around the bare key resolves to the same value. -/
theorem lookup_eq_resolved (session : Session) (key : Text) (hmem : key ∈ session.map.keys)
    (hne : key ≠ []) (htrim : Text.trim key = key) :
    ∃ value, session.resolved.get? key = some value ∧ session.lookup key = some value ∧
      session.listed key = PathList.split value ∧
      (splitOpen key = none → ':' ∉ key → '}' ∉ key →
        (Evaluator.resolve { scope := ⟨session.map, session.fallback⟩ }
          ('$' :: '{' :: (key ++ ['}']))).1 = value) := by
  obtain ⟨raw, hheld⟩ := OrderedMap.exists_get?_of_mem_keys hmem
  have hlookup : session.lookup key = some (entryValue ⟨session.map, session.fallback⟩ key raw) :=
    Evaluator.lookup_of_held hne htrim hheld
  refine ⟨entryValue ⟨session.map, session.fallback⟩ key raw, ?_, hlookup, ?_, ?_⟩
  · rw [resolved, get?_resolveMap, hheld, Option.map_some]
  · rw [listed, hlookup, Option.map_some, Option.getD_some]
  · intro hopen hcolon hclose
    rw [Evaluator.resolve_placeholder ⟨hopen, hcolon, hclose⟩]
    exact congrArg (Option.getD · []) hlookup

/-- The profile list is on a cycle with another key, and each of the two adds a profile. -/
def circular : Session where
  map := .ofList
    [("config.profiles.active".toList, "dev,${more}".toList),
      ("more".toList, "test;${config.profiles.active}".toList)]

theorem lookup_circular :
    circular.options.profilesKey ∈ circular.map.keys ∧ circular.options.profilesKey ≠ [] ∧
    Text.trim circular.options.profilesKey = circular.options.profilesKey ∧
    ∃ value, circular.resolved.get? circular.options.profilesKey = some value ∧
      circular.lookup circular.options.profilesKey = some value ∧
      circular.listed circular.options.profilesKey = PathList.split value ∧
      (Evaluator.resolve { scope := ⟨circular.map, circular.fallback⟩ }
        "${config.profiles.active}".toList).1 = value := by
  have hmem : circular.options.profilesKey ∈ circular.map.keys := by decide
  have hne : circular.options.profilesKey ≠ [] := by decide
  have htrim : Text.trim circular.options.profilesKey = circular.options.profilesKey := by decide
  obtain ⟨value, hresolved, hlookup, hlisted, hplaceholder⟩ :=
    lookup_eq_resolved circular circular.options.profilesKey hmem hne htrim
  exact ⟨hmem, hne, htrim, value, hresolved, hlookup, hlisted,
    hplaceholder (by decide) (by decide) (by decide)⟩

end LayeredConfig.Session
