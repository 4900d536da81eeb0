import LayeredConfig.Proofs.Session.Loading

/-! The log of a session. Every operation adds events to it: a direct write, or the files that were read,
each with its entries; a failing operation adds those that it read before it failed. The map is at every
time what the last writes in the log make of it, in their order, and the recorded sources are the
files in the log. -/

namespace LayeredConfig.Session

/-- What the log of a session records. -/
inductive Event where
  | write (key value : Text)
  | read (request : Request) (entries : Entries)

namespace Event

def entries : Event → Entries
  | .write key value => [(key, value)]
  | .read _ entries => entries

def write? : Event → Option (Text × Text)
  | .write key value => some (key, value)
  | .read .. => none

def source? : Event → Option Source
  | .write .. => none
  | .read request _ => some request.source

end Event

namespace Operation

/-- The entry that an operation writes directly. -/
def write? : Operation → Option (Text × Text)
  | set key value => some (key, value)
  | _ => none

/-- What an operation adds to the log. -/
def events (files : Files) (session : Session) : Operation → List Event
  | set key value => [.write key value]
  | operation => (reads files (operation.requests session)).map fun one => .read one.1 one.2

end Operation

/-- The session after operations, whether they fail or not. -/
def after (files : Files) (session : Session) (operations : List Operation) : Session :=
  operations.foldl (fun session operation => (operation.perform files session).1) session

/-- What operations add to the log. -/
def log (files : Files) (session : Session) : List Operation → List Event
  | [] => []
  | operation :: rest =>
    operation.events files session ++ log files (operation.perform files session).1 rest

/-- The log accounts for the map and for the recorded sources. -/
structure Logged (session : Session) (log : List Event) : Prop where
  entries : session.map.entries = OrderedMap.lastWrites (log.flatMap Event.entries)
  sources : session.sources = log.filterMap Event.source?

section Log

variable {files : Files} {session : Session} {earlier : List Event}

theorem logged_new (options : Options) (fallback : Fallback) :
    Logged { options, fallback } [] :=
  ⟨rfl, rfl⟩

theorem Logged.set (h : session.Logged earlier) (key value : Text) :
    (session.set key value).Logged (earlier ++ [.write key value]) := by
  refine ⟨?_, ?_⟩
  · rw [List.flatMap_append]
    exact OrderedMap.entries_extend_of_lastWrites h.entries [(key, value)]
  · rw [List.filterMap_append, ← h.sources]
    exact (List.append_nil _).symm

theorem Logged.loadAll (h : session.Logged earlier) (requests : List Request) :
    (session.loadAll files requests).1.Logged
      (earlier ++ (reads files requests).map fun one => .read one.1 one.2) := by
  rw [loadAll_eq, absorbAll_eq]
  refine ⟨?_, ?_⟩
  · rw [List.flatMap_append, List.flatMap_map]
    exact OrderedMap.entries_extend_of_lastWrites h.entries _
  · rw [List.filterMap_append, ← h.sources, List.filterMap_map]
    exact congrArg (session.sources ++ ·) (congrFun List.filterMap_eq_map _).symm

/-- What one operation preserves. -/
theorem Logged.perform (h : session.Logged earlier) (operation : Operation) :
    (operation.perform files session).1.Logged (earlier ++ operation.events files session) := by
  cases operation with
  | set key value => exact h.set key value
  | loadFile | loadByName | loadMain | loadProfiles | loadIndirect | loadOverrides => exact h.loadAll _

/-- What a run preserves. -/
theorem Logged.after (h : session.Logged earlier) (operations : List Operation) :
    (session.after files operations).Logged (earlier ++ log files session operations) := by
  induction operations generalizing session earlier with
  | nil =>
      rw [log, List.append_nil]
      exact h
  | cons operation operations ih =>
      rw [log, ← List.append_assoc]
      exact ih (h.perform operation)

theorem write?_events (operation : Operation) :
    (operation.events files session).filterMap Event.write? = operation.write?.toList := by
  cases operation with
  | set key value => rfl
  | loadFile | loadByName | loadMain | loadProfiles | loadIndirect | loadOverrides =>
      rw [Operation.events, List.filterMap_map]
      · exact List.filterMap_eq_nil_iff.2 fun _ _ => rfl
      · simp

theorem write?_log (operations : List Operation) :
    (log files session operations).filterMap Event.write? = operations.filterMap Operation.write? := by
  induction operations generalizing session with
  | nil => rfl
  | cons operation operations ih =>
      rw [log, List.filterMap_append, ih, write?_events, List.filterMap_cons]
      cases operation.write? <;> rfl

theorem read_of_mem_events {operation : Operation} {request : Request} {entries : Entries}
    (h : .read request entries ∈ operation.events files session) :
    request ∈ operation.requests session ∧ request.read files = .ok (some entries) := by
  cases operation with
  | set key value => simp [Operation.events] at h
  | loadFile | loadByName | loadMain | loadProfiles | loadIndirect | loadOverrides =>
      obtain ⟨one, hmem, heq⟩ := List.mem_map.1 h
      cases heq
      exact read_of_mem_reads hmem

theorem read_of_mem_log {operations : List Operation} {request : Request} {entries : Entries}
    (h : .read request entries ∈ log files session operations) :
    request.read files = .ok (some entries) := by
  induction operations generalizing session with
  | nil => cases h
  | cons operation operations ih =>
      rcases List.mem_append.1 h with hevents | hrest
      · exact (read_of_mem_events hevents).2
      · exact ih hrest

end Log

/-- After any operations on a new session its keys are distinct, and its entries are those of the log
whose key does not occur again later. The files in the log are the recorded sources, with the entries
they hold; the direct writes in it are those of the operations, at their places in between. -/
theorem entries_after_operations (files : Files) (options : Options) (fallback : Fallback)
    (operations : List Operation) :
    (after files { options, fallback } operations).map.keys.Nodup ∧
    (after files { options, fallback } operations).map.entries =
      OrderedMap.lastWrites ((log files { options, fallback } operations).flatMap Event.entries) ∧
    (after files { options, fallback } operations).sources =
      (log files { options, fallback } operations).filterMap Event.source? ∧
    (log files { options, fallback } operations).filterMap Event.write? =
      operations.filterMap Operation.write? ∧
    ∀ request entries, .read request entries ∈ log files { options, fallback } operations →
      request.read files = .ok (some entries) := by
  have hlogged : (after files { options, fallback } operations).Logged
      (log files { options, fallback } operations) := (logged_new options fallback).after operations
  exact ⟨OrderedMap.nodup _, hlogged.entries, hlogged.sources, write?_log operations,
    fun _ _ => read_of_mem_log⟩

/-- The second operation reads one file and fails at the next; a key that is written again moves to the
end. -/
example :
    (after (fun path =>
        if path = "a.properties".toList then some "k=1\nl=2\nk=3".toUTF8
        else if path = "b.properties".toList then some "l=\\u12".toUTF8 else none) {}
      [.set "l".toList "0".toList, .loadOverrides ["-p".toList, "a.properties;b.properties".toList],
        .set "m".toList "4".toList, .loadByName "a.properties".toList]).map.entries =
      [("m".toList, "4".toList), ("l".toList, "2".toList), ("k".toList, "3".toList)] := by
  decide +kernel

end LayeredConfig.Session
