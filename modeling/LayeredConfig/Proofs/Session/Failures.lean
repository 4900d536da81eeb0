import LayeredConfig.Proofs.Session.History
import LayeredConfig.Proofs.Session.Layers

/-! How a list of files fails. Before its first file is read an operation has settled which places it goes
through. It fails exactly when a regular file of a known format stands at one of them and is not UTF-8 or
is refused by the reader of its format; the first such file is the one reported, and the session is left
as the places before it leave it. Otherwise the layers of all places are written, the files that exist
are recorded in order, and their number is returned. -/

namespace LayeredConfig.Session

namespace Place

/-- A regular file of a known format stands there. -/
def present (files : Files) (place : Place) : Bool := place.format?.isSome && (files place.path).isSome

/-- What is wrong with the file that stands there. -/
inductive Rejected (files : Files) : Place → Fault → Prop
  | notUtf8 {path : Text} {content : ByteArray} {format : Format} (hfile : files path = some content)
      (hutf8 : String.fromUTF8? content = none) : Rejected files ⟨path, some format⟩ .notUtf8
  | refused {path : Text} {content : ByteArray} {format : Format} {s : String} {fault : Fault}
      (hfile : files path = some content) (hutf8 : String.fromUTF8? content = some s)
      (hparse : format.parse s.toList = .error fault) : Rejected files ⟨path, some format⟩ fault

end Place

namespace Operation

/-- The places that an operation goes through. -/
def places (session : Session) : Operation → List Place
  | set .. => []
  | loadFile origin format path => [⟨session.place origin path, some format⟩]
  | loadByName path => [listedPlace path]
  | loadMain origin =>
    (stemPlaces session.options.baseName).map fun place =>
      { place with path := session.place origin place.path }
  | loadProfiles =>
    session.activeProfiles.flatMap fun profile =>
      bundledPlaces session.options (session.options.baseName ++ '-' :: profile)
  | loadIndirect => (session.listed session.options.indirectionKey).map listedPlace
  | loadOverrides arguments => (overrideNames session.options.overrideFlag arguments).map listedPlace

/-- On whose behalf it reads them. -/
def origin (session : Session) : Operation → Origin
  | loadFile origin .. | loadMain origin => origin
  | loadProfiles => .resource
  | loadIndirect => session.indirectOrigin
  | loadOverrides _ => .commandLine
  | set .. | loadByName _ => .localFile

end Operation

/-- The session after the layers of places have been written and the files there have been recorded. -/
def laid (files : Files) (session : Session) (origin : Origin) (places : List Place)
    (layers : List Entries) : Session :=
  { session with
    map := overlaid session.map layers
    sources := session.sources ++ (places.filter (·.present files)).map fun place => ⟨place.path, origin⟩ }

section Places

variable {files : Files} {place : Place} {fault : Fault}

theorem decode_eq_error_iff {format : Format} {content : ByteArray} :
    format.decode content = .error fault ↔
      (String.fromUTF8? content = none ∧ fault = .notUtf8) ∨
        ∃ s, String.fromUTF8? content = some s ∧ format.parse s.toList = .error fault := by
  unfold Format.decode
  cases String.fromUTF8? content with
  | none => simp [eq_comm]
  | some s => simp

theorem rejected_iff_decode {path : Text} {format : Format} :
    Place.Rejected files ⟨path, some format⟩ fault ↔
      ∃ content, files path = some content ∧ format.decode content = .error fault := by
  constructor
  · intro h
    cases h with
    | notUtf8 hfile hutf8 => exact ⟨_, hfile, decode_eq_error_iff.2 (.inl ⟨hutf8, rfl⟩)⟩
    | refused hfile hutf8 hparse => exact ⟨_, hfile, decode_eq_error_iff.2 (.inr ⟨_, hutf8, hparse⟩)⟩
  · rintro ⟨content, hfile, hdecode⟩
    rcases decode_eq_error_iff.1 hdecode with ⟨hutf8, rfl⟩ | ⟨s, hutf8, hparse⟩
    · exact .notUtf8 hfile hutf8
    · exact .refused hfile hutf8 hparse

/-- What stands at a place is a layer or is rejected. -/
theorem layer_or_rejected (files : Files) (place : Place) :
    (∃ entries, Layer files place entries) ∨ ∃ fault, place.Rejected files fault := by
  obtain ⟨path, format?⟩ := place
  cases format? with
  | none => exact .inl ⟨[], .unrecognised path⟩
  | some format =>
      cases hfile : files path with
      | none => exact .inl ⟨[], .absent format hfile⟩
      | some content =>
          cases hdecode : format.decode content with
          | ok entries => exact .inl ⟨entries, .present hfile hdecode⟩
          | error fault => exact .inr ⟨fault, rejected_iff_decode.2 ⟨content, hfile, hdecode⟩⟩

theorem Layer.not_rejected {entries : Entries} (h : Layer files place entries) :
    ¬ place.Rejected files fault := by
  intro hrejected
  cases h with
  | unrecognised path => cases hrejected
  | absent format hfile =>
      obtain ⟨content, hcontent, -⟩ := rejected_iff_decode.1 hrejected
      exact Option.some_ne_none content (hcontent.symm.trans hfile)
  | present hfile hdecode =>
      obtain ⟨content, hcontent, herror⟩ := rejected_iff_decode.1 hrejected
      cases hcontent.symm.trans hfile
      cases herror.symm.trans hdecode

theorem not_rejected_of_layers {places : List Place} {layers : List Entries}
    (h : List.Forall₂ (Layer files) places layers) : ∀ place ∈ places, ¬ place.Rejected files fault := by
  induction h with
  | nil => simp
  | cons hlayer _ ih => exact List.forall_mem_cons.2 ⟨hlayer.not_rejected, ih⟩

/-- Places have layers, or there is a first one that is rejected. -/
theorem layers_or_first_rejected (files : Files) (places : List Place) :
    (∃ layers, List.Forall₂ (Layer files) places layers) ∨
      ∃ before place after layers fault, places = before ++ place :: after ∧
        List.Forall₂ (Layer files) before layers ∧ place.Rejected files fault := by
  induction places with
  | nil => exact .inl ⟨[], .nil⟩
  | cons place places ih =>
      rcases layer_or_rejected files place with ⟨entries, hlayer⟩ | ⟨fault, hrejected⟩
      · rcases ih with ⟨layers, hlayers⟩ | ⟨before, first, after, layers, fault, rfl, hlayers, hrejected⟩
        · exact .inl ⟨entries :: layers, .cons hlayer hlayers⟩
        · exact .inr
            ⟨place :: before, first, after, entries :: layers, fault, rfl, .cons hlayer hlayers, hrejected⟩
      · exact .inr ⟨[], place, places, [], fault, rfl, .nil, hrejected⟩

end Places

section Failures

variable {files : Files} {session : Session} {places : List Place} {layers : List Entries}
  {origin : Origin}

/-! What each operation goes through, as places. -/

theorem requests_eq (operation : Operation) :
    operation.requests session =
      (operation.places session).filterMap (Place.request? (operation.origin session)) := by
  cases operation with
  | set key value => rfl
  | loadFile origin format path => rfl
  | loadByName path => exact request?_byName session (by simp) [path]
  | loadMain origin => cases origin <;> rfl
  | loadProfiles =>
      rw [Operation.places, List.filterMap_flatMap]
      rfl
  | loadIndirect => exact request?_byName session (indirectOrigin_ne_resource session) _
  | loadOverrides arguments =>
      rw [Operation.places, overrideNames, ← overrideTarget?_eq]
      exact request?_byName session (by simp) _

theorem perform_eq_loadAll {operation : Operation} (h : operation.write? = none) :
    operation.perform files session =
      session.loadAll files
        ((operation.places session).filterMap (Place.request? (operation.origin session))) := by
  rw [← requests_eq]
  cases operation with
  | set key value => cases h
  | loadFile | loadByName | loadMain | loadProfiles | loadIndirect | loadOverrides => rfl

theorem read_of_present {path : Text} {content : ByteArray} (hfile : files path = some content)
    (format : Format) :
    Request.read files ⟨⟨path, origin⟩, format⟩ =
      ((format.decode content).mapError (.file path)).map some := by
  unfold Request.read
  simp only [hfile]

/-- Loading goes on after places that have layers. -/
theorem reads_append_of_layers (origin : Origin) (h : List.Forall₂ (Layer files) places layers)
    (rest : List Place) :
    reads files ((places ++ rest).filterMap (Place.request? origin)) =
        reads files (places.filterMap (Place.request? origin)) ++
          reads files (rest.filterMap (Place.request? origin)) ∧
      failure? files ((places ++ rest).filterMap (Place.request? origin)) =
        failure? files (rest.filterMap (Place.request? origin)) := by
  induction h with
  | nil => exact ⟨rfl, rfl⟩
  | @cons place entries places layers hlayer _ ih =>
      obtain ⟨path, format?⟩ := place
      cases format? with
      | none => exact ih
      | some format =>
          obtain ⟨found, hread, rfl⟩ := (layer_iff_read origin).1 hlayer
          rw [List.cons_append, filterMap_request?_cons, filterMap_request?_cons, failure?, reads, reads,
            hread]
          cases found with
          | none => exact ih
          | some entries => exact ⟨congrArg _ ih.1, ih.2⟩

/-- Loading ends at a place that is rejected. -/
theorem reads_cons_of_rejected (origin : Origin) {place : Place} {fault : Fault}
    (h : place.Rejected files fault) (rest : List Place) :
    reads files ((place :: rest).filterMap (Place.request? origin)) = [] ∧
      failure? files ((place :: rest).filterMap (Place.request? origin)) =
        some (.file place.path fault) := by
  obtain ⟨path, format?⟩ := place
  cases format? with
  | none => cases h
  | some format =>
      obtain ⟨content, hfile, hdecode⟩ := rejected_iff_decode.1 h
      rw [filterMap_request?_cons, failure?, reads, read_of_present hfile, hdecode]
      exact ⟨rfl, rfl⟩

/-- The files read at places with layers are those that stand there. -/
theorem sources_of_layers (h : List.Forall₂ (Layer files) places layers) :
    (reads files (places.filterMap (Place.request? origin))).map (fun one => one.1.source) =
      (places.filter (·.present files)).map fun place => ⟨place.path, origin⟩ := by
  induction h with
  | nil => rfl
  | @cons place entries places layers hlayer _ ih =>
      cases hlayer with
      | unrecognised path => exact ih
      | @absent path format hfile =>
          have hpresent : ¬ Place.present files ⟨path, some format⟩ := by simp [Place.present, hfile]
          rw [List.filter_cons_of_neg hpresent, filterMap_request?_cons, reads, Request.read, hfile]
          exact ih
      | @present path content format _ hfile hdecode =>
          have hpresent : Place.present files ⟨path, some format⟩ := by simp [Place.present, hfile]
          rw [List.filter_cons_of_pos hpresent, filterMap_request?_cons, reads, read_of_present hfile,
            hdecode]
          exact congrArg _ ih

theorem absorbAll_eq_laid (h : List.Forall₂ (Layer files) places layers) :
    session.absorbAll (reads files (places.filterMap (Place.request? origin))) =
      session.laid files origin places layers := by
  rw [absorbAll_eq, (reads_of_layers h).2, sources_of_layers h, laid, overlaid_eq_extend]

theorem loadAll_of_layers (h : List.Forall₂ (Layer files) places layers) :
    session.loadAll files (places.filterMap (Place.request? origin)) =
      (session.laid files origin places layers, .ok (places.countP (·.present files))) := by
  have hcount : (reads files (places.filterMap (Place.request? origin))).length =
      places.countP (·.present files) := by
    rw [List.countP_eq_length_filter, ← List.length_map, sources_of_layers h, List.length_map]
  rw [loadAll_eq, (reads_of_layers h).1, absorbAll_eq_laid h, hcount]

theorem loadAll_of_rejected {place : Place} {fault : Fault}
    (h : List.Forall₂ (Layer files) places layers) (hrejected : place.Rejected files fault)
    (rest : List Place) :
    session.loadAll files ((places ++ place :: rest).filterMap (Place.request? origin)) =
      (session.laid files origin places layers, .error (.file place.path fault)) := by
  obtain ⟨hreads, hfailure⟩ := reads_append_of_layers origin h (place :: rest)
  rw [(reads_cons_of_rejected origin hrejected rest).1, List.append_nil] at hreads
  rw [(reads_cons_of_rejected origin hrejected rest).2] at hfailure
  rw [loadAll_eq, hreads, hfailure, absorbAll_eq_laid h]

/-- An operation that succeeds goes through no place that is rejected. -/
theorem not_rejected_of_perform_eq_ok {operation : Operation} {count : Nat} (hwrite : operation.write? = none)
    (h : (operation.perform files session).2 = .ok count) :
    ∀ place ∈ operation.places session, ∀ fault, ¬ place.Rejected files fault := by
  rcases layers_or_first_rejected files (operation.places session) with
    ⟨layers, hlayers⟩ | ⟨before, place, after, layers, fault, hplaces, hlayers, hrejected⟩
  · exact fun place hmem _ => not_rejected_of_layers hlayers place hmem
  · rw [perform_eq_loadAll hwrite, hplaces, loadAll_of_rejected hlayers hrejected] at h
    cases h

end Failures

def listing : Operation :=
  .loadOverrides ["-p".toList, "a.properties;notes.txt;b.properties;c.properties".toList]

end LayeredConfig.Session
