import LayeredConfig.Proofs.Session.Failures
import LayeredConfig.Proofs.Session.Lookup

/-! Names that a list repeats. A profile or a file that is listed again is loaded again, and what it wrote
before is written over once more, whatever other layers lie in between. So the map is the one that the list
leaves when of each name only the last occurrence is kept. -/

namespace LayeredConfig.Session

/-- The operation succeeds, and leaves the session with the map. -/
def Leaves (files : Files) (session : Session) (operation : Operation) (map : OrderedMap Text) : Prop :=
  ∃ last count, operation.perform files session = (last, .ok count) ∧ last.map = map

section Names

variable {files : Files} {names : List Text} {placesOf : Text → List Place}

/-- When no place of a name is rejected, each name contributes the same layers wherever it is listed. -/
theorem exists_contribution
    (h : ∀ name ∈ names, ∀ place ∈ placesOf name, ∀ fault, ¬ place.Rejected files fault) :
    ∃ contribution : Text → Entries, ∀ chosen ⊆ names, ∃ layers,
      List.Forall₂ (Layer files) (chosen.flatMap placesOf) layers ∧
        layers.flatten = chosen.flatMap contribution := by
  have hlayer : ∀ place, ∃ entries, place ∈ names.flatMap placesOf → Layer files place entries := by
    intro place
    by_cases hmem : place ∈ names.flatMap placesOf
    · obtain ⟨name, hname, hplace⟩ := List.mem_flatMap.1 hmem
      rcases layer_or_rejected files place with ⟨entries, hlayer⟩ | ⟨fault, hrejected⟩
      · exact ⟨entries, fun _ => hlayer⟩
      · exact absurd hrejected (h name hname place hplace fault)
    · exact ⟨[], fun hmem' => absurd hmem' hmem⟩
  choose layer hlayer using hlayer
  refine ⟨fun name => (placesOf name).flatMap layer, fun chosen hchosen =>
    ⟨(chosen.flatMap placesOf).map layer, ?_, ?_⟩⟩
  · rw [List.forall₂_map_right_iff, List.forall₂_same]
    intro place hmem
    obtain ⟨name, hname, hplace⟩ := List.mem_flatMap.1 hmem
    exact hlayer place (List.mem_flatMap.2 ⟨name, hchosen hname, hplace⟩)
  · rw [← List.flatMap_def, List.flatMap_assoc]

theorem leaves_of_layers {session : Session} {operation : Operation} {layers : List Entries}
    (hwrite : operation.write? = none)
    (hlayers : List.Forall₂ (Layer files) (operation.places session) layers) :
    Leaves files session operation (session.map.extend layers.flatten) := by
  rw [Leaves, perform_eq_loadAll hwrite, loadAll_of_layers hlayers]
  exact ⟨_, _, rfl, overlaid_eq_extend session.map layers⟩

/-- Two operations that go through the places of names, the one of all of them and the other of the last
occurrences, leave one map. -/
theorem exists_leaves {session other : Session} {operation shorter : Operation} (names : List Text)
    (placesOf : Text → List Place)
    (hmap : other.map = session.map) (hwrite : operation.write? = none) (hwrite' : shorter.write? = none)
    (hplaces : operation.places session = names.flatMap placesOf)
    (hplaces' : shorter.places other = names.dedup.flatMap placesOf)
    (h : ∀ name ∈ names, ∀ place ∈ placesOf name, ∀ fault, ¬ place.Rejected files fault) :
    ∃ map, Leaves files session operation map ∧ Leaves files other shorter map := by
  obtain ⟨contribution, hcontribution⟩ := exists_contribution h
  obtain ⟨layers, hlayers, hflatten⟩ := hcontribution names (List.Subset.refl names)
  obtain ⟨layers', hlayers', hflatten'⟩ := hcontribution names.dedup (List.dedup_subset names)
  refine ⟨session.map.extend (names.flatMap contribution), ?_, ?_⟩
  · rw [← hflatten]
    exact leaves_of_layers hwrite (hplaces ▸ hlayers)
  · rw [← OrderedMap.extend_flatMap_dedup, ← hflatten', ← hmap]
    exact leaves_of_layers hwrite' (hplaces' ▸ hlayers')

end Names

/-- Of a profile or an override file that is listed more than once only the last place in the list matters.
When every listed file that exists can be read, the list and the list that keeps the last occurrence of each
name leave the same map, in the same order. -/
theorem repeated_names_count_once (files : Files) (session : Session) (names : List Text) :
    (∀ longer shorter : Fallback,
      activeProfiles { session with fallback := longer } = names →
      activeProfiles { session with fallback := shorter } = names.dedup →
      (∀ profile ∈ names,
        ∀ place ∈ bundledPlaces session.options (session.options.baseName ++ '-' :: profile),
          ∀ fault, ¬ place.Rejected files fault) →
      ∃ map, Leaves files { session with fallback := longer } .loadProfiles map ∧
        Leaves files { session with fallback := shorter } .loadProfiles map) ∧
    ∀ longer shorter : List Text,
      overrideNames session.options.overrideFlag longer = names →
      overrideNames session.options.overrideFlag shorter = names.dedup →
      (∀ name ∈ names, ∀ fault, ¬ (listedPlace name).Rejected files fault) →
      ∃ map, Leaves files session (.loadOverrides longer) map ∧
        Leaves files session (.loadOverrides shorter) map := by
  constructor
  · intro longer shorter hlonger hshorter hread
    refine exists_leaves names _ rfl rfl rfl ?_ ?_ hread
    · rw [Operation.places, hlonger]
    · rw [Operation.places, hshorter]
  · intro longer shorter hlonger hshorter hread
    refine exists_leaves names (fun name => [listedPlace name]) rfl rfl rfl ?_ ?_ ?_
    · rw [Operation.places, hlonger, List.map_eq_flatMap]
    · rw [Operation.places, hshorter, List.map_eq_flatMap]
    · simpa using hread

/-- Files for two profiles. They share a key, which one of them repeats. -/
def overlays : Files := fun path =>
  if path = "resources/application-dev.properties".toList then some "k=1\nl=2\nk=3".toUTF8
  else if path = "resources/application-prod.yaml".toList then some "k: 4\nm: 5\n".toUTF8
  else none

/-- Profiles that the fallback source lists. -/
def activating (listing : String) : Fallback :=
  .ofPairs [("config.profiles.active".toList, listing.toList)]

/-- Arguments that list the same files as overrides. -/
def overriding (listing : String) : List Text := ["-p".toList, listing.toList]

def longListing : String :=
  "resources/application-dev.properties resources/application-prod.yaml,resources/application-dev.properties"

def shortListing : String := "resources/application-prod.yaml;resources/application-dev.properties"

theorem repeated_names_dev :
    (∃ map, Leaves overlays { fallback := activating "dev, prod;dev" } .loadProfiles map ∧
      Leaves overlays { fallback := activating "prod dev" } .loadProfiles map) ∧
    ∃ map, Leaves overlays {} (.loadOverrides (overriding longListing)) map ∧
      Leaves overlays {} (.loadOverrides (overriding shortListing)) map ∧
      map.entries = [("m".toList, "5".toList), ("l".toList, "2".toList), ("k".toList, "3".toList)] := by
  have hactive (fallback : Fallback) : activeProfiles { fallback } =
      ((fallback "config.profiles.active".toList).map PathList.split).getD [] := by
    have hlisted : listed { fallback } "config.profiles.active".toList = _ :=
      listed_of_absent (by decide) rfl
    rwa [(by decide : Text.trim "config.profiles.active".toList = "config.profiles.active".toList)]
      at hlisted
  constructor
  · have hlonger : activeProfiles { fallback := activating "dev, prod;dev" } =
        ["dev".toList, "prod".toList, "dev".toList] := by
      rw [hactive]
      decide
    have hshorter : activeProfiles { fallback := activating "prod dev" } = ["prod".toList, "dev".toList] := by
      rw [hactive]
      decide
    have hcount : (Operation.loadProfiles.perform overlays { fallback := activating "dev, prod;dev" }).2 =
        .ok 3 := by
      change (loadAll overlays _ ((activeProfiles _).flatMap _)).2 = _
      rw [hlonger]
      decide +kernel
    have hread := not_rejected_of_perform_eq_ok rfl hcount
    rw [Operation.places, hlonger] at hread
    exact (repeated_names_count_once overlays {} _).1 _ _ hlonger (hshorter.trans (by decide))
      fun profile hprofile place hplace => hread place (List.mem_flatMap.2 ⟨profile, hprofile, hplace⟩)
  · have hlonger : overrideNames "-p".toList (overriding longListing) =
        ["resources/application-dev.properties".toList, "resources/application-prod.yaml".toList,
          "resources/application-dev.properties".toList] := by decide +kernel
    have hshorter : overrideNames "-p".toList (overriding shortListing) =
        ["resources/application-prod.yaml".toList, "resources/application-dev.properties".toList] := by
      decide +kernel
    have hrun : ((Operation.loadOverrides (overriding longListing)).perform overlays {}).2 = .ok 3 ∧
        ((Operation.loadOverrides (overriding longListing)).perform overlays {}).1.map.entries =
          [("m".toList, "5".toList), ("l".toList, "2".toList), ("k".toList, "3".toList)] := by
      decide +kernel
    obtain ⟨hcount, hentries⟩ := hrun
    have hread := not_rejected_of_perform_eq_ok rfl hcount
    obtain ⟨map, hlong, hshort⟩ := (repeated_names_count_once overlays {} _).2 _ _ hlonger
      (hshorter.trans (by decide +kernel)) fun name hname => hread (listedPlace name) (by
        rw [Operation.places]
        exact List.mem_map_of_mem (hlonger ▸ hname))
    refine ⟨map, hlong, hshort, ?_⟩
    obtain ⟨last, count, hperform, rfl⟩ := hlong
    rw [hperform] at hentries
    exact hentries

end LayeredConfig.Session
