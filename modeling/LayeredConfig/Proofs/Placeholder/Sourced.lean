import LayeredConfig.Proofs.Placeholder.Layout
import LayeredConfig.Proofs.Placeholder.Machine
import LayeredConfig.Proofs.OrderedMap

/-! What is scanned for placeholders. The steps of the machine put the answers of the fallback source into
the results as they are; what they scan, and what waits to be scanned, is part of the text to resolve or
of a text that the map holds. -/

namespace LayeredConfig.Placeholder

/-- Part of the text to resolve or of a text that the map holds. -/
def Sourced (map : OrderedMap Text) (raw text : Text) : Prop :=
  text <:+: raw ∨ ∃ key source, map.get? key = some source ∧ text <:+: source

section Parts

variable {map : OrderedMap Text} {raw text before body rest : Text}

theorem Sourced.within {part : Text} (h : Sourced map raw text) (hpart : part <:+: text) :
    Sourced map raw part := by
  rcases h with hraw | ⟨key, source, hheld, hsource⟩
  · exact Or.inl (hpart.trans hraw)
  · exact Or.inr ⟨key, source, hheld, hpart.trans hsource⟩

theorem infix_of_firstPlaceholder (h : firstPlaceholder text = some (before, body, rest)) :
    body <:+: text ∧ rest <:+: text := by
  obtain ⟨segment, -, rfl, rfl⟩ := exists_segment h
  exact ⟨⟨segment.before ++ opening, '}' :: rest, by simp [Segment.text]⟩, segment.text, [], by simp⟩

theorem key_within (body : Text) : (splitDefault body).1 <:+: body :=
  ⟨[], ((splitDefault body).2.map (':' :: ·)).getD [], defaultAt_append 0 body⟩

theorem default_within {default : Text} (h : (splitDefault body).2 = some default) : default <:+: body := by
  have hbody : (splitDefault body).1 ++ ((splitDefault body).2.map (':' :: ·)).getD [] = body :=
    defaultAt_append 0 body
  rw [h] at hbody
  exact ⟨(splitDefault body).1 ++ [':'], [], by simpa using hbody⟩

end Parts

/-- The texts that are being scanned or wait to be scanned. -/
def Control.pending : Control → List Text
  | .scan _ _ rest => [rest]
  | .body text => [text]
  | .entries rest _ => rest.map Prod.snd
  | .key _ | .value _ _ | .answer _ _ => []

def Frame.pending : Frame → List Text
  | .afterBody _ _ rest => [rest]
  | .afterKey default | .afterSearch default _ => default.toList
  | .afterEntry _ rest _ => rest.map Prod.snd
  | .afterDefault _ | .afterHeld _ => []

namespace Machine

/-- What the machine scans, and all that waits to be scanned, comes from the text to resolve or from
the map. -/
structure AllSourced (map : OrderedMap Text) (raw : Text) (machine : Machine) : Prop where
  control : ∀ text ∈ machine.control.pending, Sourced map raw text
  stack : ∀ frame ∈ machine.stack, ∀ text ∈ frame.pending, Sourced map raw text

section AllSourced

variable {scope : Scope} {map : OrderedMap Text} {raw : Text} {control next : Control} {frame : Frame}
  {stack : List Frame} {chain chain' : List Text} {memo memo' : Memo} {machine successor : Machine}

/-- The stack stays; what is to be scanned next has a source. -/
theorem AllSourced.goto (h : AllSourced map raw ⟨control, stack, chain, memo⟩)
    (hnext : ∀ text ∈ next.pending, Sourced map raw text) :
    AllSourced map raw ⟨next, stack, chain', memo'⟩ :=
  ⟨hnext, h.stack⟩

theorem AllSourced.push (h : AllSourced map raw ⟨control, stack, chain, memo⟩)
    (hframe : ∀ text ∈ frame.pending, Sourced map raw text) :
    AllSourced map raw ⟨control, frame :: stack, chain, memo⟩ :=
  ⟨h.control, List.forall_mem_cons.2 ⟨hframe, h.stack⟩⟩

theorem AllSourced.pop (h : AllSourced map raw ⟨control, frame :: stack, chain, memo⟩) :
    (∀ text ∈ frame.pending, Sourced map raw text) ∧ AllSourced map raw ⟨control, stack, chain, memo⟩ :=
  ⟨h.stack frame List.mem_cons_self, h.control, fun other hmem => h.stack other (List.mem_cons_of_mem _ hmem)⟩

/-- What one step keeps. -/
theorem AllSourced.step (h : AllSourced scope.map raw machine) (hmoves : Moves scope machine successor) :
    AllSourced scope.map raw successor := by
  cases hmoves with
  | plain => exact h.goto (List.forall_mem_nil _)
  | @placeholder _ _ rest _ _ _ _ _ _ hfirst =>
      have hrest := h.control rest List.mem_cons_self
      obtain ⟨hbody, htail⟩ := infix_of_firstPlaceholder hfirst
      refine (h.push ?_).goto (List.forall_mem_singleton.2 (hrest.within hbody))
      exact List.forall_mem_singleton.2 (hrest.within htail)
  | @body text =>
      have htext := h.control text List.mem_cons_self
      have hkey := htext.within (key_within text)
      refine (h.push fun default hmem => ?_).goto (List.forall_mem_singleton.2 hkey)
      exact htext.within (default_within (Option.mem_toList.1 hmem))
  | answered => exact h.goto (List.forall_mem_nil _)
  | @held key source _ _ _ _ hheld =>
      have hsource : Sourced scope.map raw source := Or.inr ⟨key, source, hheld, List.infix_rfl⟩
      exact (h.push (List.forall_mem_nil _)).goto (List.forall_mem_singleton.2 hsource)
  | afterBody => exact h.pop.2.goto h.pop.1
  | afterKey =>
      refine (h.pop.2.push ?_).goto (List.forall_mem_nil _)
      exact h.pop.1
  | afterDefault => exact h.pop.2.goto (List.forall_mem_nil _)
  | afterHeld => exact h.pop.2.goto (List.forall_mem_nil _)
  | afterEntry => exact h.pop.2.goto h.pop.1
  | found => exact h.pop.2.goto (List.forall_mem_nil _)
  | undefaulted => exact h.pop.2.goto (List.forall_mem_nil _)
  | defaulted => exact (h.pop.2.push (List.forall_mem_nil _)).goto h.pop.1
  | settledEntry => exact h.goto (List.forall_mem_cons.1 h.control).2
  | entry =>
      obtain ⟨hsource, hrest⟩ := List.forall_mem_cons.1 h.control
      refine (h.push ?_).goto (List.forall_mem_singleton.2 hsource)
      exact hrest

/-- What a run keeps. -/
theorem AllSourced.run {n : Nat} (h : AllSourced scope.map raw machine)
    (hrun : machine.run scope n = some successor) : AllSourced scope.map raw successor :=
  run_keeps AllSourced.step h hrun

theorem allSourced_start (evaluator : Evaluator) (raw : Text) :
    AllSourced evaluator.scope.map raw (start evaluator (.resolve raw)) :=
  ⟨List.forall_mem_singleton.2 (Or.inl List.infix_rfl), List.forall_mem_nil _⟩

end AllSourced

end Machine

end LayeredConfig.Placeholder
