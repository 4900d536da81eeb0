import LayeredConfig.Proofs.Session.Failures
import LayeredConfig.Proofs.Session.Lookup

/-! Where the files that the indirection key lists are recorded to come from. The list is looked up under the
trimmed key, in the map and then in the fallback source; the origin is told by whether the map has the key
as it is spelt in the options. The record is right exactly when the two keys are both in the map or both
not, as they are when the key has no blanks around it. -/

namespace LayeredConfig.Session

/-- The origin of a list that is kept under a key: local when the map has the key, and the environment when
only the fallback source can have it. -/
def listOrigin (session : Session) (key : Text) : Origin :=
  if session.map.contains key then .localFile else .environment

section Record

variable {files : Files} {session : Session}

theorem origin_of_mem_reads {origin : Origin} {places : List Place} {one : Request × Entries}
    (h : one ∈ reads files (places.filterMap (Place.request? origin))) : one.1.source.origin = origin := by
  obtain ⟨place, -, hrequest⟩ := List.mem_filterMap.1 (read_of_mem_reads h).1
  obtain ⟨format, -, heq⟩ := Option.map_eq_some_iff.1 hrequest
  rw [← heq]

/-- The sources that an operation records have its origin. -/
theorem exists_recorded {operation : Operation} (hwrite : operation.write? = none) :
    ∃ recorded, (operation.perform files session).1.sources = session.sources ++ recorded ∧
      ∀ source ∈ recorded, source.origin = operation.origin session := by
  rw [perform_eq_loadAll hwrite, loadAll_eq, absorbAll_eq]
  exact ⟨_, rfl, List.forall_mem_map.2 fun _ hmem => origin_of_mem_reads hmem⟩

theorem listOrigin_eq_iff {key other : Text} :
    session.listOrigin key = session.listOrigin other ↔
      session.map.contains key = session.map.contains other := by
  unfold listOrigin
  cases session.map.contains key <;> cases session.map.contains other <;> decide

/-- A listing is the value of the map's entry for the trimmed key; without one the fallback source alone has it. -/
theorem holder_of_lookup {key listing : Text} (h : session.lookup key = some listing) :
    if session.map.contains (Text.trim key) then session.resolved.get? (Text.trim key) = some listing
    else session.fallback (Text.trim key) = some listing := by
  rw [lookup_eq] at h
  split at h
  · cases h
  · rw [resolved, Placeholder.get?_resolveMap] at h ⊢
    rw [OrderedMap.contains]
    cases hheld : session.map.get? (Text.trim key) with
    | none =>
        rw [hheld] at h
        exact h
    | some raw =>
        rw [hheld] at h
        exact h

end Record

/-- The files that the indirection key lists are recorded with the origin of the key as it is spelt. They are read
from a list that the map holds under the trimmed key, or the fallback source alone when the map does not have it;
so the record is right exactly when the map has both spellings of the key or none, or when no file was read. -/
theorem recorded_origin_right_iff (files : Files) (session : Session) :
    ∃ recorded, (Operation.loadIndirect.perform files session).1.sources = session.sources ++ recorded ∧
      (∀ source ∈ recorded, source.origin = session.listOrigin session.options.indirectionKey) ∧
      ((∀ source ∈ recorded,
          source.origin = session.listOrigin (Text.trim session.options.indirectionKey)) ↔
        recorded = [] ∨ session.map.contains session.options.indirectionKey =
          session.map.contains (Text.trim session.options.indirectionKey)) ∧
      ∀ listing, session.lookup session.options.indirectionKey = some listing →
        if session.map.contains (Text.trim session.options.indirectionKey) then
          session.resolved.get? (Text.trim session.options.indirectionKey) = some listing
        else session.fallback (Text.trim session.options.indirectionKey) = some listing := by
  obtain ⟨recorded, hsources, horigin⟩ := @exists_recorded files session .loadIndirect rfl
  refine ⟨recorded, hsources, horigin, ⟨fun hright => ?_, ?_⟩, fun _ => holder_of_lookup⟩
  · cases recorded with
    | nil => exact .inl rfl
    | cons source recorded =>
        have hsame := (horigin source List.mem_cons_self).symm.trans (hright source List.mem_cons_self)
        exact .inr (listOrigin_eq_iff.1 hsame)
  · rintro (rfl | hsame) source hmem
    · cases hmem
    · exact (horigin source hmem).trans (listOrigin_eq_iff.2 hsame)

/-- A session whose indirection key has a blank on either side of the key that its map has. -/
def padded : Session where
  options := { indirectionKey := " load.properties ".toList }
  map := .ofList [("load.properties".toList, "a.properties".toList)]

/-- The file is recorded as listed by the environment, though the map lists it. -/
theorem padded_key_recorded_wrong :
    ¬∀ (files : Files) (session : Session) (recorded : List Source),
      (Operation.loadIndirect.perform files session).1.sources = session.sources ++ recorded →
      ∀ source ∈ recorded, (source.origin = .environment ↔
        session.map.contains (Text.trim session.options.indirectionKey) = false) := by
  intro h
  have hheld : padded.map.get? (Text.trim " load.properties ".toList) = some "a.properties".toList := by
    decide
  have hplain : Placeholder.firstPlaceholder "a.properties".toList = none := by decide +kernel
  have hlisted : padded.listed " load.properties ".toList = ["a.properties".toList] := by
    rw [listed, lookup_eq, if_neg (by decide), resolved, Placeholder.get?_resolveMap, hheld, Option.map_some,
      Placeholder.entryValue, Placeholder.expand_of_none hplain]
    decide
  have hsources : (Operation.loadIndirect.perform
      (fun path => if path = "a.properties".toList then some "k=1".toUTF8 else none) padded).1.sources =
        [⟨"a.properties".toList, .environment⟩] := by
    change (loadAll _ padded (padded.byName padded.indirectOrigin (padded.listed _))).1.sources = _
    rw [show padded.options.indirectionKey = " load.properties ".toList from rfl, hlisted]
    decide +kernel
  have hmisled := h _ padded _ hsources ⟨"a.properties".toList, .environment⟩ List.mem_cons_self
  have hcontains : padded.map.contains (Text.trim padded.options.indirectionKey) = true := by decide
  rw [hcontains] at hmisled
  exact Bool.noConfusion (hmisled.1 rfl)

end LayeredConfig.Session
