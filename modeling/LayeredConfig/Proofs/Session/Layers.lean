import LayeredConfig.Proofs.Session.Loading
import LayeredConfig.Proofs.Session.Lookup
import Mathlib.Data.List.Forall2

/-! The layers of a complete session. Each stage lists files, two of the stages by names that are looked
up in the map as it is by then, and every listed file is a layer over the earlier ones. A session
succeeds exactly when every listed file that exists can be read; its result is the resolution of the
starting map with all layers written over it, from the weakest to the strongest. -/

namespace LayeredConfig.Session

/-- A file that a stage lists. One whose name tells no format has none. -/
structure Place where
  path : Text
  format? : Option Format

/-- What a listed file contributes. -/
inductive Layer (files : Files) : Place → Entries → Prop
  | unrecognised (path : Text) : Layer files ⟨path, none⟩ []
  | absent {path : Text} (format : Format) (hfile : files path = none) : Layer files ⟨path, some format⟩ []
  | present {path : Text} {content : ByteArray} {format : Format} {entries : Entries}
      (hfile : files path = some content) (hdecode : format.decode content = .ok entries) :
      Layer files ⟨path, some format⟩ entries

/-! ### What the stages list -/

/-- The three files of a stem. -/
def stemPlaces (stem : Text) : List Place :=
  [⟨stem ++ ".properties".toList, some .properties⟩, ⟨stem ++ ".yaml".toList, some .yaml⟩,
    ⟨stem ++ ".yml".toList, some .yaml⟩]

/-- The three files of a stem in the resource directory. -/
def bundledPlaces (options : Options) (stem : Text) : List Place :=
  (stemPlaces stem).map fun place =>
    { place with path := Path.join options.resourceDirectory place.path }

def listedPlace (name : Text) : Place := ⟨name, Format.ofPath? name⟩

/-- The map after layers have been written over it. -/
def overlaid (map : OrderedMap Text) (layers : List Entries) : OrderedMap Text :=
  .ofList (map.entries :: layers).flatten

/-- The value of a key once layers have been written over the session's map: the one that the resolution of
this map has for the trimmed key, else what the fallback source says of it. A blank key has none. -/
def valueOver? (session : Session) (layers : List Entries) (key : Text) : Option Text :=
  if Text.trim key = [] then none
  else
    ((Placeholder.resolveMap (overlaid session.map layers) session.fallback).get? (Text.trim key)).or
      (session.fallback (Text.trim key))

/-- The names in that value. -/
def listedOver (session : Session) (layers : List Entries) (key : Text) : List Text :=
  match session.valueOver? layers key with
  | some value => PathList.split value
  | none => []

/-- The names in the argument that follows the first override flag. -/
def overrideNames (flag : Text) (arguments : List Text) : List Text :=
  (((arguments.dropWhile (· ≠ flag))[1]?).map PathList.split).getD []

/-- What the five stages of a session contribute, file by file. -/
structure Layers where
  bundled : List Entries
  profiles : List Entries
  main : List Entries
  indirect : List Entries
  overrides : List Entries

namespace Layers

/-- All layers, from the weakest to the strongest. -/
def all (layers : Layers) : List Entries :=
  layers.bundled ++ layers.profiles ++ layers.main ++ layers.indirect ++ layers.overrides

/-- The layers are those of a session that is run with these arguments. Profiles are looked up over the
bundled main files, and the indirection key over everything but the overrides. -/
structure Of (files : Files) (session : Session) (arguments : List Text) (layers : Layers) : Prop where
  bundled : List.Forall₂ (Layer files) (bundledPlaces session.options session.options.baseName)
    layers.bundled
  profiles : List.Forall₂ (Layer files)
    ((session.listedOver layers.bundled session.options.profilesKey).flatMap fun profile =>
      bundledPlaces session.options (session.options.baseName ++ '-' :: profile))
    layers.profiles
  main : List.Forall₂ (Layer files) (stemPlaces session.options.baseName) layers.main
  indirect : List.Forall₂ (Layer files)
    ((session.listedOver (layers.bundled ++ layers.profiles ++ layers.main)
      session.options.indirectionKey).map listedPlace)
    layers.indirect
  overrides : List.Forall₂ (Layer files)
    ((overrideNames session.options.overrideFlag arguments).map listedPlace) layers.overrides

end Layers

/-! ### Listed files and requests -/

/-- The request that reads a listed file; there is none without a format. -/
def Place.request? (origin : Origin) (place : Place) : Option Request :=
  place.format?.map fun format => ⟨⟨place.path, origin⟩, format⟩

section Requests

variable {files : Files} {session : Session} {places : List Place} {layers : List Entries}
  {origin : Origin}

theorem request?_byName (session : Session) (horigin : origin ≠ .resource) (names : List Text) :
    session.byName origin names = (names.map listedPlace).filterMap (Place.request? origin) := by
  rw [byName, List.filterMap_map]
  apply List.filterMap_congr
  intro name _
  have hplace : session.place origin name = name := by
    cases origin with
    | resource => exact absurd rfl horigin
    | localFile | commandLine | environment => rfl
  simp only [request, hplace]
  rfl

theorem indirectOrigin_ne_resource (session : Session) : session.indirectOrigin ≠ .resource := by
  unfold indirectOrigin
  split <;> simp

theorem filterMap_request?_cons (path : Text) (format : Format) (places : List Place) :
    (⟨path, some format⟩ :: places).filterMap (Place.request? origin) =
      ⟨⟨path, origin⟩, format⟩ :: places.filterMap (Place.request? origin) :=
  rfl

/-- A file with a format contributes what a request for it reads; an absent file reads as no entries. -/
theorem layer_iff_read (origin : Origin) {path : Text} {format : Format} {entries : Entries} :
    Layer files ⟨path, some format⟩ entries ↔
      ∃ found, Request.read files ⟨⟨path, origin⟩, format⟩ = .ok found ∧ found.getD [] = entries := by
  unfold Request.read
  constructor
  · intro h
    cases h with
    | absent _ hfile => exact ⟨none, by simp only [hfile], rfl⟩
    | present hfile hdecode =>
        refine ⟨some entries, ?_, rfl⟩
        simp only [hfile, hdecode]
        rfl
  · rintro ⟨found, hread, rfl⟩
    cases hfile : files path with
    | none =>
        simp only [hfile] at hread
        cases hread
        exact .absent format hfile
    | some content =>
        simp only [hfile] at hread
        cases hdecode : format.decode content with
        | error fault =>
            rw [hdecode] at hread
            cases hread
        | ok entries =>
            rw [hdecode] at hread
            cases hread
            exact .present hfile hdecode

/-- Files that have layers can all be read, and they are what is read. -/
theorem reads_of_layers (h : List.Forall₂ (Layer files) places layers) :
    failure? files (places.filterMap (Place.request? origin)) = none ∧
      (reads files (places.filterMap (Place.request? origin))).flatMap Prod.snd = layers.flatten := by
  induction h with
  | nil => exact ⟨rfl, rfl⟩
  | @cons place entries places layers hlayer _ ih =>
      obtain ⟨path, format?⟩ := place
      cases format? with
      | none =>
          cases hlayer
          exact ih
      | some format =>
          obtain ⟨found, hread, rfl⟩ := (layer_iff_read origin).1 hlayer
          rw [filterMap_request?_cons, failure?, reads, hread, List.flatten_cons]
          cases found with
          | none => exact ih
          | some entries => exact ⟨ih.1, congrArg (entries ++ ·) ih.2⟩

theorem exists_layers (h : failure? files (places.filterMap (Place.request? origin)) = none) :
    ∃ layers, List.Forall₂ (Layer files) places layers := by
  induction places with
  | nil => exact ⟨[], .nil⟩
  | cons place places ih =>
      obtain ⟨path, format?⟩ := place
      cases format? with
      | none =>
          obtain ⟨layers, hlayers⟩ := ih h
          exact ⟨[] :: layers, .cons (.unrecognised path) hlayers⟩
      | some format =>
          rw [filterMap_request?_cons, failure?] at h
          split at h
          · cases h
          · rename_i found hread
            obtain ⟨layers, hlayers⟩ := ih h
            exact ⟨found.getD [] :: layers, .cons ((layer_iff_read origin).2 ⟨found, hread, rfl⟩) hlayers⟩

end Requests

/-! ### Stages -/

/-- The session differs from the first one by layers that have been written over its map, and by the
sources on record. -/
structure Over (first : Session) (layers : List Entries) (session : Session) : Prop where
  map : session.map = overlaid first.map layers
  options : session.options = first.options
  fallback : session.fallback = first.fallback

/-- The operations succeed, and the session that they leave resolves to the map. -/
def Completes (files : Files) (session : Session) (operations : List Operation)
    (result : OrderedMap Text) : Prop :=
  ∃ last, session.performAll files operations = (last, .ok ()) ∧ last.resolved = result

section Stages

variable {files : Files} {first session : Session} {layers : List Entries}

theorem overlaid_eq_extend (map : OrderedMap Text) (layers : List Entries) :
    overlaid map layers = map.extend layers.flatten := by
  rw [overlaid, List.flatten_cons, OrderedMap.ofList, OrderedMap.extend_append]
  exact congrArg (·.extend layers.flatten) (OrderedMap.ofList_entries map)

theorem over_refl (session : Session) : Over session [] session :=
  ⟨(overlaid_eq_extend session.map []).symm, rfl, rfl⟩

/-- A look-up in the session is a look-up in the resolution of the map that the layers leave. -/
theorem Over.lookup_eq_valueOver? (h : Over first layers session) (key : Text) :
    session.lookup key = first.valueOver? layers key := by
  rw [lookup_eq, resolved, h.map, h.fallback]
  rfl

theorem Over.listed_eq (h : Over first layers session) (key : Text) :
    session.listed key = first.listedOver layers key := by
  rw [listed, h.lookup_eq_valueOver?, listedOver]
  cases first.valueOver? layers key <;> rfl

theorem Over.absorbAll {more : List Entries} {done : List (Request × Entries)}
    (h : Over first layers session) (hdone : done.flatMap Prod.snd = more.flatten) :
    Over first (layers ++ more) (session.absorbAll done) := by
  rw [absorbAll_eq]
  refine ⟨?_, h.options, h.fallback⟩
  rw [overlaid_eq_extend, List.flatten_append, OrderedMap.extend_append,
    ← overlaid_eq_extend first.map layers, ← h.map, ← hdone]

theorem completes_nil_iff {result : OrderedMap Text} (h : Over first layers session) :
    Completes files session [] result ↔
      result = Placeholder.resolveMap (overlaid first.map layers) first.fallback := by
  rw [← h.map, ← h.fallback]
  constructor
  · rintro ⟨last, hlast, rfl⟩
    cases hlast
    rfl
  · rintro rfl
    exact ⟨session, rfl, rfl⟩

/-- A stage succeeds when the files it lists have layers, and the stages after it go on from there. -/
theorem completes_cons_iff {operation : Operation} {rest : List Operation} {places : List Place}
    {origin : Origin} {result : OrderedMap Text} {follows : List Entries → Prop}
    (h : Over first layers session)
    (hperform : operation.perform files session =
      session.loadAll files (places.filterMap (Place.request? origin)))
    (hrest : ∀ more next, Over first (layers ++ more) next →
      (Completes files next rest result ↔ follows more)) :
    Completes files session (operation :: rest) result ↔
      ∃ more, List.Forall₂ (Layer files) places more ∧ follows more := by
  have hrun : Completes files session (operation :: rest) result ↔
      failure? files (places.filterMap (Place.request? origin)) = none ∧
        Completes files (session.absorbAll (reads files (places.filterMap (Place.request? origin)))) rest
          result := by
    unfold Completes
    rw [performAll, hperform, loadAll_eq]
    cases failure? files (places.filterMap (Place.request? origin)) <;> simp
  rw [hrun]
  constructor
  · rintro ⟨hread, hcompletes⟩
    obtain ⟨more, hmore⟩ := exists_layers hread
    exact ⟨more, hmore, (hrest more _ (h.absorbAll (reads_of_layers hmore).2)).1 hcompletes⟩
  · rintro ⟨more, hmore, hfollows⟩
    obtain ⟨hread, hentries⟩ := reads_of_layers hmore
    exact ⟨hread, (hrest more _ (h.absorbAll hentries)).2 hfollows⟩

theorem load_eq_ok_iff_completes {arguments : List Text} {result : OrderedMap Text} :
    session.load files arguments = .ok result ↔ Completes files session (program arguments) result := by
  unfold load Completes
  cases session.performAll files (program arguments) with
  | mk last outcome => cases outcome <;> simp

theorem overrideTarget?_eq (flag : Text) (arguments : List Text) :
    overrideTarget? flag arguments = (arguments.dropWhile (· ≠ flag))[1]? := by
  induction arguments with
  | nil => rfl
  | cons argument rest ih =>
      rw [overrideTarget?, List.dropWhile_cons]
      by_cases hflag : argument = flag
      · rw [if_pos hflag, if_neg (by simpa using hflag), List.getElem?_cons_succ, List.head?_eq_getElem?]
      · rw [if_neg hflag, if_pos (by simpa using hflag), ih]

/-! What each operation of a complete session lists, said of the session it was started with. -/

theorem Over.perform_bundled (h : Over first layers session) :
    (Operation.loadMain .resource).perform files session = session.loadAll files
      ((bundledPlaces first.options first.options.baseName).filterMap (Place.request? .resource)) := by
  rw [← h.options]
  rfl

theorem Over.perform_profiles (h : Over first layers session) :
    Operation.loadProfiles.perform files session = session.loadAll files
      (((first.listedOver layers first.options.profilesKey).flatMap fun profile =>
        bundledPlaces first.options (first.options.baseName ++ '-' :: profile)).filterMap
          (Place.request? .resource)) := by
  rw [← h.listed_eq, ← h.options, List.filterMap_flatMap]
  rfl

theorem Over.perform_main (h : Over first layers session) :
    (Operation.loadMain .localFile).perform files session = session.loadAll files
      ((stemPlaces first.options.baseName).filterMap (Place.request? .localFile)) := by
  rw [← h.options]
  rfl

theorem Over.perform_indirect (h : Over first layers session) :
    Operation.loadIndirect.perform files session = session.loadAll files
      (((first.listedOver layers first.options.indirectionKey).map listedPlace).filterMap
        (Place.request? session.indirectOrigin)) := by
  rw [← h.listed_eq, ← h.options, ← request?_byName session (indirectOrigin_ne_resource session)]
  rfl

theorem Over.perform_overrides (h : Over first layers session) (arguments : List Text) :
    (Operation.loadOverrides arguments).perform files session = session.loadAll files
      (((overrideNames first.options.overrideFlag arguments).map listedPlace).filterMap
        (Place.request? .commandLine)) := by
  rw [← h.options, ← request?_byName session (by simp), overrideNames, ← overrideTarget?_eq]
  rfl

/-- The operations of a complete session complete exactly when its layers exist. -/
theorem completes_program_iff {arguments : List Text} {result : OrderedMap Text} :
    Completes files session (program arguments) result ↔
      ∃ layers : Layers, layers.Of files session arguments ∧
        result = Placeholder.resolveMap (overlaid session.map layers.all) session.fallback := by
  have hchain : Completes files session (program arguments) result ↔
      ∃ bundled, List.Forall₂ (Layer files) (bundledPlaces session.options session.options.baseName)
        bundled ∧
      ∃ profiles, List.Forall₂ (Layer files)
        ((session.listedOver bundled session.options.profilesKey).flatMap fun profile =>
          bundledPlaces session.options (session.options.baseName ++ '-' :: profile)) profiles ∧
      ∃ main, List.Forall₂ (Layer files) (stemPlaces session.options.baseName) main ∧
      ∃ indirect, List.Forall₂ (Layer files)
        ((session.listedOver (bundled ++ profiles ++ main) session.options.indirectionKey).map listedPlace)
        indirect ∧
      ∃ overrides, List.Forall₂ (Layer files)
        ((overrideNames session.options.overrideFlag arguments).map listedPlace) overrides ∧
      result = Placeholder.resolveMap
        (overlaid session.map (bundled ++ profiles ++ main ++ indirect ++ overrides)) session.fallback := by
    have h₀ := over_refl session
    refine completes_cons_iff h₀ h₀.perform_bundled fun bundled s₁ h₁ => ?_
    refine completes_cons_iff h₁ h₁.perform_profiles fun profiles s₂ h₂ => ?_
    refine completes_cons_iff h₂ h₂.perform_main fun main s₃ h₃ => ?_
    refine completes_cons_iff h₃ h₃.perform_indirect fun indirect s₄ h₄ => ?_
    refine completes_cons_iff h₄ (h₄.perform_overrides arguments) fun overrides s₅ h₅ => ?_
    exact completes_nil_iff h₅
  rw [hchain]
  constructor
  · rintro ⟨bundled, hbundled, profiles, hprofiles, main, hmain, indirect, hindirect, overrides,
      hoverrides, hresult⟩
    exact ⟨⟨bundled, profiles, main, indirect, overrides⟩,
      ⟨hbundled, hprofiles, hmain, hindirect, hoverrides⟩, hresult⟩
  · rintro ⟨layers, hlayers, hresult⟩
    exact ⟨layers.bundled, hlayers.bundled, layers.profiles, hlayers.profiles, layers.main, hlayers.main,
      layers.indirect, hlayers.indirect, layers.overrides, hlayers.overrides, hresult⟩

end Stages

/-- A complete session succeeds exactly when its layers exist, and its result is the resolution of the
starting map with the layers written over it. In that map every key has the value that the last layer
with the key writes last, the starting map being the weakest layer. -/
theorem load_eq_ok_iff (files : Files) (session : Session) (arguments : List Text)
    (result : OrderedMap Text) :
    session.load files arguments = .ok result ↔
      ∃ layers : Layers, layers.Of files session arguments ∧
        result = Placeholder.resolveMap (overlaid session.map layers.all) session.fallback ∧
        ∀ key, (overlaid session.map layers.all).get? key =
          (session.map.entries :: layers.all).reverse.findSome? fun layer => layer.reverse.lookup key := by
  rw [load_eq_ok_iff_completes, completes_program_iff]
  constructor
  · rintro ⟨layers, hlayers, hresult⟩
    exact ⟨layers, hlayers, hresult, OrderedMap.get?_ofList_flatten _⟩
  · rintro ⟨layers, hlayers, hresult, -⟩
    exact ⟨layers, hlayers, hresult⟩

end LayeredConfig.Session
