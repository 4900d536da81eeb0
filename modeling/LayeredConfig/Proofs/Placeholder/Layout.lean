import LayeredConfig.Proofs.Placeholder.Balanced
import Mathlib.Logic.ExistsUnique

/-! How a text divides into placeholders and the text around them. The division is a layout: segments,
each a placeholder with the text in front of it, and an ending without a placeholder. Every text has one
layout and no second. Expanding the text evaluates the bodies from left to right, each with the memory
that the one before it left, and puts the values between the unchanged texts. -/

namespace LayeredConfig.Placeholder

/-- A placeholder and the text between it and the one before it. -/
structure Segment where
  before : Text
  body : Text
  literal : ¬opening <:+: before
  balanced : Balanced body

/-- What follows the last placeholder: text that opens none, and from the first opening that nothing
closes on, everything. -/
structure Ending where
  last : Text
  unclosed : Text
  literal : ¬opening <:+: last
  unmatched : unclosed = [] ∨
    ∃ t, unclosed = opening ++ t ∧ ∀ body rest, Balanced body → t ≠ body ++ '}' :: rest

structure Layout where
  segments : List Segment
  ending : Ending

def Segment.text (segment : Segment) : Text := segment.before ++ (opening ++ segment.body ++ ['}'])

def Ending.text (ending : Ending) : Text := ending.last ++ ending.unclosed

namespace Layout

def text (layout : Layout) : Text := layout.segments.flatMap Segment.text ++ layout.ending.text

def bodies (layout : Layout) : List Text := layout.segments.map Segment.body

/-- The text with a value in the place of each placeholder. -/
def fill (layout : Layout) (values : List Text) : Text :=
  (layout.segments.zipWith (fun segment value => segment.before ++ value) values).flatten ++
    layout.ending.text

end Layout

/-- Evaluates bodies in turn, each with the memory that the one before it left. -/
def evaluateEach (scope : Scope) (chain : List Text) : List Text → Memo → List (Outcome Text) × Memo
  | [], memo => ([], memo)
  | body :: bodies, memo =>
    let here := evaluate scope chain body memo
    let others := evaluateEach scope chain bodies here.memo
    (here :: others.1, others.2)

/-! ### The first segment -/

section First

variable {raw before body rest : Text}

theorem firstPlaceholder_segment (segment : Segment) (rest : Text) :
    firstPlaceholder (segment.text ++ rest) = some (segment.before, segment.body, rest) := by
  refine firstPlaceholder_eq_some_iff.2
    ⟨segment.body ++ '}' :: rest, ?_, splitClose_append segment.balanced rest⟩
  have htext : segment.text ++ rest = segment.before ++ (opening ++ (segment.body ++ '}' :: rest)) := by
    simp [Segment.text]
  rw [htext]
  exact splitOpen_append segment.literal _

theorem exists_segment (h : firstPlaceholder raw = some (before, body, rest)) :
    ∃ segment : Segment, segment.before = before ∧ segment.body = body ∧ raw = segment.text ++ rest := by
  obtain ⟨after, hopen, hclose⟩ := firstPlaceholder_eq_some_iff.1 h
  obtain ⟨rfl, hbefore⟩ := splitOpen_eq_some_iff.1 hopen
  obtain ⟨rfl, hbody⟩ := splitClose_eq_some_iff.1 hclose
  exact ⟨⟨before, body, hbefore, hbody⟩, rfl, rfl, by simp [Segment.text]⟩

theorem splitOpen_ending (ending : Ending) : splitOpen ending.text =
    if ending.unclosed = [] then none else some (ending.last, ending.unclosed.drop 2) := by
  obtain ⟨last, unclosed, hlast, rfl | ⟨t, rfl, ht⟩⟩ := ending
  · simpa [Ending.text] using splitOpen_eq_none_iff.2 hlast
  · exact splitOpen_append hlast t

theorem firstPlaceholder_ending (ending : Ending) : firstPlaceholder ending.text = none := by
  rw [firstPlaceholder, splitOpen_ending]
  obtain ⟨last, unclosed, hlast, rfl | ⟨t, rfl, ht⟩⟩ := ending
  · rfl
  · have hclose : splitClose t = none := by
      cases hclose : splitClose t with
      | none => rfl
      | some parts =>
          obtain ⟨heq, hbody⟩ := splitClose_eq_some_iff.1 hclose
          exact absurd heq (ht parts.1 parts.2 hbody)
    simp [opening, hclose]

theorem exists_ending (h : firstPlaceholder raw = none) : ∃ ending : Ending, ending.text = raw := by
  unfold firstPlaceholder at h
  split at h
  · rename_i hopen
    exact ⟨⟨raw, [], splitOpen_eq_none_iff.1 hopen, Or.inl rfl⟩, List.append_nil raw⟩
  · rename_i last t hopen
    obtain ⟨rfl, hlast⟩ := splitOpen_eq_some_iff.1 hopen
    refine ⟨⟨last, opening ++ t, hlast, Or.inr ⟨t, rfl, fun body rest hbody heq => ?_⟩⟩, rfl⟩
    rw [splitClose_eq_some_iff.2 ⟨heq, hbody⟩] at h
    cases h

theorem Ending.text_injective : Function.Injective Ending.text := by
  intro ending other htext
  have hopen := congrArg splitOpen htext
  rw [splitOpen_ending, splitOpen_ending] at hopen
  have hlast : ending.last = other.last := by
    by_cases hnil : ending.unclosed = [] <;> by_cases hnil' : other.unclosed = []
    · simpa [Ending.text, hnil, hnil'] using htext
    · simp [hnil, hnil'] at hopen
    · simp [hnil, hnil'] at hopen
    · simp_all
  have hunclosed : ending.unclosed = other.unclosed := by
    rw [Ending.text, Ending.text, hlast] at htext
    exact List.append_cancel_left htext
  cases ending
  cases other
  cases hlast
  cases hunclosed
  rfl

end First

/-! ### Layouts -/

namespace Layout

theorem text_nil (ending : Ending) : text ⟨[], ending⟩ = ending.text := rfl

theorem text_cons (segment : Segment) (segments : List Segment) (ending : Ending) :
    text ⟨segment :: segments, ending⟩ = segment.text ++ text ⟨segments, ending⟩ :=
  List.append_assoc _ _ _

theorem exists_of_text (raw : Text) : ∃ layout : Layout, layout.text = raw := by
  induction hlength : raw.length using Nat.strongRecOn generalizing raw with
  | ind n ih =>
      cases hfirst : firstPlaceholder raw with
      | none =>
          obtain ⟨ending, hending⟩ := exists_ending hfirst
          exact ⟨⟨[], ending⟩, hending⟩
      | some parts =>
          obtain ⟨before, body, rest⟩ := parts
          have hshorter := length_of_firstPlaceholder hfirst
          obtain ⟨segment, -, -, hraw⟩ := exists_segment hfirst
          obtain ⟨⟨segments, ending⟩, hrest⟩ := ih rest.length (by omega) rest rfl
          exact ⟨⟨segment :: segments, ending⟩, by rw [text_cons, hrest, hraw]⟩

theorem text_injective : Function.Injective text := by
  rintro ⟨segments, ending⟩ ⟨others, ending'⟩ htext
  induction segments generalizing others with
  | nil =>
      cases others with
      | nil =>
          rw [text_nil, text_nil] at htext
          rw [Ending.text_injective htext]
      | cons other others =>
          have hfirst := (firstPlaceholder_ending ending).symm.trans (congrArg firstPlaceholder htext)
          rw [text_cons, firstPlaceholder_segment] at hfirst
          cases hfirst
  | cons segment segments ih =>
      have hfirst := congrArg firstPlaceholder htext
      rw [text_cons, firstPlaceholder_segment] at hfirst
      cases others with
      | nil =>
          rw [text_nil, firstPlaceholder_ending] at hfirst
          cases hfirst
      | cons other others =>
          rw [text_cons, firstPlaceholder_segment] at hfirst
          simp only [Option.some.injEq, Prod.mk.injEq] at hfirst
          obtain ⟨hbefore, hbody, hrest⟩ := hfirst
          have hsegment : segment = other := by
            cases segment
            cases other
            cases hbefore
            cases hbody
            rfl
          cases ih others hrest
          rw [hsegment]

end Layout

theorem length_evaluateEach (scope : Scope) (chain bodies : List Text) (memo : Memo) :
    (evaluateEach scope chain bodies memo).1.length = bodies.length := by
  induction bodies generalizing memo with
  | nil => rfl
  | cons body bodies ih => simp [evaluateEach, ih]

/-- Expanding a text evaluates its placeholders in turn and leaves the text around them as it is. -/
theorem expand_text (layout : Layout) (scope : Scope) (chain : List Text) (memo : Memo) :
    expand scope chain layout.text memo =
      let done := evaluateEach scope chain layout.bodies memo
      ⟨layout.fill (done.1.map Outcome.value), done.1.any Outcome.cut, done.2⟩ := by
  obtain ⟨segments, ending⟩ := layout
  induction segments generalizing memo with
  | nil =>
      rw [Layout.text_nil, expand_of_none (firstPlaceholder_ending ending)]
      rfl
  | cons segment segments ih =>
      rw [Layout.text_cons, expand_of_some (firstPlaceholder_segment segment _)]
      simp [ih, Layout.fill, Layout.bodies, evaluateEach]

/-- Every text has exactly one layout, and its expansion is the layout filled with the values of its
bodies, evaluated in turn. -/
theorem expand_fills_layout :
    (∀ raw, ∃! layout : Layout, layout.text = raw) ∧
    ∀ (layout : Layout) (scope : Scope) (chain : List Text) (memo : Memo),
      let done := evaluateEach scope chain layout.bodies memo
      done.1.length = layout.segments.length ∧
      expand scope chain layout.text memo =
        ⟨layout.fill (done.1.map Outcome.value), done.1.any Outcome.cut, done.2⟩ := by
  refine ⟨fun raw => ?_, fun layout scope chain memo => ⟨?_, expand_text layout scope chain memo⟩⟩
  · obtain ⟨layout, hlayout⟩ := Layout.exists_of_text raw
    exact ⟨layout, hlayout, fun other hother => Layout.text_injective (hother.trans hlayout.symm)⟩
  · rw [length_evaluateEach, Layout.bodies, List.length_map]

end LayeredConfig.Placeholder
