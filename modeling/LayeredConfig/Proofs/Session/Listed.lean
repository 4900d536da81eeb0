import LayeredConfig.Proofs.Placeholder.Transparency
import LayeredConfig.Proofs.Session.Failures

/-! Two ways to name a list of files. The list that the indirection key holds is gone through by the names: a
name that tells no format is passed over, whatever stands there. The list behind the override flag is gone
through by the files: where no file stands, the name is not even looked at. Both come to the same, but for
the origin that is put on record. -/

namespace LayeredConfig.Session

/-- Reads the file of a request if it exists, and tells whether it did. -/
def loadOne (files : Files) (session : Session) (request : Request) : Session × Except Error Bool :=
  match request.read files with
  | .error error => (session, .error error)
  | .ok none => (session, .ok false)
  | .ok (some entries) => (session.absorb request.source entries, .ok true)

/-- Reads a file whose name tells a format. The name is looked at before the file is looked for. -/
def loadNamed (files : Files) (origin : Origin) (session : Session) (name : Text) :
    Session × Except Error Bool :=
  match Format.ofPath? name with
  | none => (session, .ok false)
  | some format => session.loadOne files ⟨⟨name, origin⟩, format⟩

/-- The same after a look for the file: without one the name is not looked at. -/
def loadPresent (files : Files) (origin : Origin) (session : Session) (name : Text) :
    Session × Except Error Bool :=
  match files name with
  | none => (session, .ok false)
  | some _ => session.loadNamed files origin name

/-- Takes a step for each name, as far as the first that fails, and counts those that read a file. -/
def loadEach (step : Session → Text → Session × Except Error Bool) (session : Session) :
    List Text → Session × Except Error Nat
  | [] => (session, .ok 0)
  | name :: rest =>
    match step session name with
    | (session, .error error) => (session, .error error)
    | (session, .ok false) => loadEach step session rest
    | (session, .ok true) =>
      let (session, count) := loadEach step session rest
      (session, count.map (· + 1))

/-- The session with another map and with more files on record. -/
def having (session : Session) (map : OrderedMap Text) (origin : Origin) (paths : List Text) : Session :=
  { session with map := map, sources := session.sources ++ paths.map fun path => ⟨path, origin⟩ }

/-- The paths of the files that stand at places. -/
def standing (files : Files) (places : List Place) : List Text :=
  (places.filter (·.present files)).map (·.path)

section Steps

variable {files : Files} {origin : Origin} {session : Session}

/-- A name without a file is passed over by both steps. -/
theorem loadPresent_eq_loadNamed (files : Files) (origin : Origin) :
    loadPresent files origin = loadNamed files origin := by
  funext session name
  rw [loadPresent]
  cases hfile : files name with
  | some content => rfl
  | none =>
      rw [loadNamed]
      cases Format.ofPath? name with
      | none => rfl
      | some format =>
          have hread : Request.read files ⟨⟨name, origin⟩, format⟩ = .ok none := by
            simp only [Request.read, hfile]
          simp only [loadOne, hread]

/-- Going through names step by step is loading the files whose names tell a format. -/
theorem loadEach_loadNamed (files : Files) (origin : Origin) (session : Session) (names : List Text) :
    session.loadEach (loadNamed files origin) names =
      session.loadAll files ((names.map listedPlace).filterMap (Place.request? origin)) := by
  induction names generalizing session with
  | nil => rfl
  | cons name names ih =>
      rw [loadEach, loadNamed, List.map_cons, listedPlace]
      cases Format.ofPath? name with
      | none => exact ih session
      | some format =>
          rw [filterMap_request?_cons, loadAll]
          dsimp only
          rw [loadOne]
          cases Request.read files ⟨⟨name, origin⟩, format⟩ with
          | error error => rfl
          | ok found =>
              cases found with
              | none => exact ih session
              | some entries =>
                  dsimp only
                  rw [ih]

theorem perform_loadIndirect (files : Files) (session : Session) :
    Operation.loadIndirect.perform files session =
      session.loadEach (loadNamed files session.indirectOrigin)
        (session.listed session.options.indirectionKey) := by
  rw [loadEach_loadNamed, perform_eq_loadAll rfl]
  rfl

theorem perform_loadOverrides (files : Files) (session : Session) (arguments : List Text) :
    (Operation.loadOverrides arguments).perform files session =
      session.loadEach (loadPresent files .commandLine)
        (overrideNames session.options.overrideFlag arguments) := by
  rw [loadPresent_eq_loadNamed, loadEach_loadNamed, perform_eq_loadAll rfl]
  rfl

theorem laid_eq_having (files : Files) (session : Session) (origin : Origin) (places : List Place)
    (layers : List Entries) :
    session.laid files origin places layers =
      session.having (overlaid session.map layers) origin (standing files places) := by
  rw [laid, having, standing, List.map_map]
  rfl

/-- The origin of the files has no part in what is read, recorded and reported but on the record itself. -/
theorem exists_having (files : Files) (session : Session) (names : List Text) :
    ∃ map paths outcome, ∀ origin,
      session.loadEach (loadNamed files origin) names = (session.having map origin paths, outcome) := by
  rcases layers_or_first_rejected files (names.map listedPlace) with
    ⟨layers, hlayers⟩ | ⟨before, place, after, layers, fault, hplaces, hlayers, hrejected⟩
  · refine ⟨overlaid session.map layers, standing files (names.map listedPlace),
      .ok ((names.map listedPlace).countP (·.present files)), fun origin => ?_⟩
    rw [loadEach_loadNamed, loadAll_of_layers hlayers, laid_eq_having]
  · refine ⟨overlaid session.map layers, standing files before, .error (.file place.path fault),
      fun origin => ?_⟩
    rw [loadEach_loadNamed, hplaces, loadAll_of_rejected hlayers hrejected, laid_eq_having]

end Steps

/-- When the indirection key holds a listing, reading it and reading the same listing behind the override flag
come to one map, one row of paths on record and one outcome; only the origins on record differ. The one
looks at the name of a file first, the other looks for the file first. -/
theorem indirect_agrees_with_overrides (files : Files) (session : Session) (listing : Text)
    (h : session.lookup session.options.indirectionKey = some listing) :
    Operation.loadIndirect.perform files session =
        session.loadEach (loadNamed files session.indirectOrigin) (PathList.split listing) ∧
      (Operation.loadOverrides [session.options.overrideFlag, listing]).perform files session =
        session.loadEach (loadPresent files .commandLine) (PathList.split listing) ∧
      ∃ map paths outcome,
        Operation.loadIndirect.perform files session =
            (session.having map session.indirectOrigin paths, outcome) ∧
          (Operation.loadOverrides [session.options.overrideFlag, listing]).perform files session =
            (session.having map .commandLine paths, outcome) := by
  have hindirect : Operation.loadIndirect.perform files session =
      session.loadEach (loadNamed files session.indirectOrigin) (PathList.split listing) := by
    rw [perform_loadIndirect, listed, h]
    rfl
  have hoverrides : (Operation.loadOverrides [session.options.overrideFlag, listing]).perform files session =
      session.loadEach (loadPresent files .commandLine) (PathList.split listing) := by
    rw [perform_loadOverrides, overrideNames, List.dropWhile_cons_of_neg (by simp)]
    rfl
  obtain ⟨map, paths, outcome, hhaving⟩ := exists_having files session (PathList.split listing)
  refine ⟨hindirect, hoverrides, map, paths, outcome, ?_, ?_⟩
  · rw [hindirect, hhaving]
  · rw [hoverrides, loadPresent_eq_loadNamed, hhaving]

/-- Two files of known formats, one of another format, and one with an escape that breaks off. -/
def mixed : Files := fun path =>
  if path = "a.properties".toList then some "k=1\nl=2".toUTF8
  else if path = "b.yml".toList then some "k: 3\n".toUTF8
  else if path = "notes.txt".toList then some "\\u12".toUTF8
  else if path = "c.properties".toList then some "m=4\nn=\\u12".toUTF8
  else none

def mixedListing : Text := "a.properties notes.txt,missing.yaml;b.yml, c.properties a.properties".toList

/-- A session whose map holds the listing. -/
def listingSession : Session where
  map := .ofList [("load.properties".toList, mixedListing)]

theorem indirect_agrees_mixed :
    listingSession.lookup listingSession.options.indirectionKey = some mixedListing ∧
      (Operation.loadIndirect.perform mixed listingSession).1.map.entries =
        [("load.properties".toList, mixedListing), ("l".toList, "2".toList), ("k".toList, "3".toList)] ∧
      (Operation.loadIndirect.perform mixed listingSession).1.sources.map Source.path =
        ["a.properties".toList, "b.yml".toList] ∧
      (Operation.loadIndirect.perform mixed listingSession).2 =
        .error (.file "c.properties".toList (.properties ⟨2, .truncated⟩)) := by
  have hlookup : listingSession.lookup listingSession.options.indirectionKey = some mixedListing := by
    have hheld : listingSession.map.get? listingSession.options.indirectionKey = some mixedListing := by decide
    have hplain : Placeholder.firstPlaceholder mixedListing = none := by decide +kernel
    rw [lookup, Placeholder.Evaluator.lookup_of_held (by decide) (by decide) hheld, Placeholder.entryValue,
      Placeholder.expand_of_none hplain]
  obtain ⟨-, -, map, paths, outcome, hindirect, hoverrides⟩ :=
    indirect_agrees_with_overrides mixed listingSession mixedListing hlookup
  have hmap : (Operation.loadIndirect.perform mixed listingSession).1.map =
      ((Operation.loadOverrides [listingSession.options.overrideFlag, mixedListing]).perform mixed
        listingSession).1.map := by
    rw [hindirect, hoverrides]
    rfl
  have hpaths : (Operation.loadIndirect.perform mixed listingSession).1.sources.map Source.path =
      ((Operation.loadOverrides [listingSession.options.overrideFlag, mixedListing]).perform mixed
        listingSession).1.sources.map Source.path := by
    rw [hindirect, hoverrides]
    simp [having]
  rw [hmap, hpaths, hindirect, ← congrArg Prod.snd hoverrides]
  exact ⟨hlookup, by decide +kernel⟩

end LayeredConfig.Session
