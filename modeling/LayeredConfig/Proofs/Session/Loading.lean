import LayeredConfig.Proofs.LastWrite
import LayeredConfig.Session.Operation

/-! Going through a list of files. The files that exist contribute in turn, as far as the first that
cannot be read; nothing of that one and of those after it enters the session. So the session that is
left is told by what has been read before, and the outcome by the first failure. -/

namespace LayeredConfig.Session

/-- The requests whose files exist, with their entries, as far as the first that cannot be read. -/
def reads (files : Files) : List Request → List (Request × Entries)
  | [] => []
  | request :: rest =>
    match request.read files with
    | .error _ => []
    | .ok none => reads files rest
    | .ok (some entries) => (request, entries) :: reads files rest

/-- The error of the first file that exists and cannot be read. -/
def failure? (files : Files) : List Request → Option Error
  | [] => none
  | request :: rest =>
    match request.read files with
    | .error error => some error
    | .ok _ => failure? files rest

/-- The session after the files read have contributed in turn. -/
def absorbAll (session : Session) (done : List (Request × Entries)) : Session :=
  done.foldl (fun session one => session.absorb one.1.source one.2) session

section Loading

variable {files : Files} {requests : List Request}

theorem absorbAll_eq (session : Session) (done : List (Request × Entries)) :
    session.absorbAll done =
      { session with
        map := session.map.extend (done.flatMap Prod.snd)
        sources := session.sources ++ done.map fun one => one.1.source } := by
  induction done generalizing session with
  | nil =>
      rw [List.map_nil, List.append_nil]
      rfl
  | cons one done ih =>
      rw [List.flatMap_cons, OrderedMap.extend_append, List.map_cons, List.append_cons]
      exact ih (session.absorb one.1.source one.2)

/-- What loading leaves, and how it ends. -/
theorem loadAll_eq (files : Files) (session : Session) (requests : List Request) :
    session.loadAll files requests =
      (session.absorbAll (reads files requests),
        match failure? files requests with
        | none => .ok (reads files requests).length
        | some error => .error error) := by
  induction requests generalizing session with
  | nil => rfl
  | cons request rest ih =>
      rw [loadAll, reads, failure?]
      cases hread : request.read files with
      | error error => rfl
      | ok found =>
          cases found with
          | none => exact ih session
          | some entries =>
              dsimp only
              rw [ih]
              cases failure? files rest <;> rfl

/-- Every file that is read is one of the list, and holds the entries. -/
theorem read_of_mem_reads {one : Request × Entries} (h : one ∈ reads files requests) :
    one.1 ∈ requests ∧ one.1.read files = .ok (some one.2) := by
  induction requests with
  | nil => cases h
  | cons request rest ih =>
      rw [reads] at h
      split at h
      · cases h
      · exact (ih h).imp_left (List.mem_cons_of_mem request)
      · rename_i entries hread
        rcases List.mem_cons.1 h with rfl | hmem
        · exact ⟨List.mem_cons_self, hread⟩
        · exact (ih hmem).imp_left (List.mem_cons_of_mem request)

end Loading

end LayeredConfig.Session
