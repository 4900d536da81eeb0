import LayeredConfig.Proofs.Placeholder.Transparency

/-! How often a text is expanded. A search off the chain either knows its answer at once or has to expand
the map's text for its key. It expands only what is not known, and when the expansion ends the answer
is known, so within one resolution no text is expanded twice and all searches for a key end alike. That
holds from any memory. In a row of resolutions provisional answers are forgotten in between, but the
value of a stable key is settled, and so its text is expanded once at most in the whole row. -/

namespace LayeredConfig.Placeholder

open Plain (Stable)

/-- The steps of a resolution that wastes nothing: no text is expanded twice, and the searches for a key
that do not have it on their chain end with one answer. -/
structure Thrifty (steps : List Step) : Prop where
  once : ∀ key, steps.count (.expanded key) ≤ 1
  consistent : ∀ key chain chain' value value', .answered key chain value ∈ steps →
    .answered key chain' value' ∈ steps → key ∉ chain → key ∉ chain' → value = value'

/-- One more expansion, of a key that none of the steps expands. -/
theorem count_expanded_le_one {key : Text} {steps : List Step} (hnot : Step.expanded key ∉ steps)
    (honce : ∀ key, steps.count (.expanded key) ≤ 1) (other : Text) :
    (steps ++ [Step.expanded key]).count (Step.expanded other) ≤ 1 := by
  rw [List.count_append]
  by_cases hother : other = key
  · subst hother
    simp [List.count_eq_zero.2 hnot]
  · have hne : Step.expanded key ≠ Step.expanded other := fun heq => hother (Step.expanded.inj heq).symm
    rw [List.count_singleton, if_neg (by simpa using hne)]
    exact honce other

namespace Memo

/-- What a search off the chain comes to at once; nothing when the map's text for the key has still to be
expanded. -/
def known? (scope : Scope) (memo : Memo) (key : Text) : Option (Option Text) :=
  if key = [] then some none
  else match (memo.settled.lookup key).or (memo.provisional.lookup key) with
    | some value => some (some value)
    | none => if (scope.map.get? key).isSome then none else some (scope.fallback key)

section Known

variable {scope : Scope} {memo : Memo} {key value : Text}

@[simp] theorem known?_record (memo : Memo) (step : Step) (key : Text) :
    (memo.record step).known? scope key = memo.known? scope key := rfl

theorem known?_nil : memo.known? scope [] = some none := if_pos rfl

theorem known?_of_settled (hkey : key ≠ []) (h : memo.settled.lookup key = some value) :
    memo.known? scope key = some (some value) := by
  rw [known?, if_neg hkey, h, Option.some_or]

theorem known?_of_provisional (hkey : key ≠ []) (hsettled : memo.settled.lookup key = none)
    (h : memo.provisional.lookup key = some value) : memo.known? scope key = some (some value) := by
  rw [known?, if_neg hkey, hsettled, h, Option.none_or]

theorem known?_of_absent (hkey : key ≠ []) (hsettled : memo.settled.lookup key = none)
    (hprovisional : memo.provisional.lookup key = none) (h : scope.map.get? key = none) :
    memo.known? scope key = some (scope.fallback key) := by
  rw [known?, if_neg hkey, hsettled, hprovisional, h]
  rfl

theorem known?_eq_none_iff : memo.known? scope key = none ↔
    key ≠ [] ∧ memo.settled.lookup key = none ∧ memo.provisional.lookup key = none ∧
      scope.map.get? key ≠ none := by
  unfold known?
  by_cases hkey : key = []
  · simp [hkey]
  · cases memo.settled.lookup key <;> cases memo.provisional.lookup key <;>
      simp [hkey, Option.isSome_iff_ne_none]

theorem known?_keep_of_ne {other : Text} (h : other ≠ key) (cut : Bool) :
    (memo.keep key value cut).known? scope other = memo.known? scope other := by
  have hother : (other == key) = false := beq_eq_false_iff_ne.2 h
  unfold known?
  cases cut <;> simp only [keep_false, keep_true, settle, List.lookup_cons, hother]

theorem known?_keep_self (h : memo.known? scope key = none) (cut : Bool) :
    (memo.keep key value cut).known? scope key = some (some value) := by
  obtain ⟨hkey, hsettled, -, -⟩ := known?_eq_none_iff.1 h
  cases cut with
  | false => exact known?_of_settled hkey (by rw [keep_false, settled_settle, List.lookup_cons_self])
  | true => exact known?_of_provisional hkey hsettled (by rw [keep_true, List.lookup_cons_self])

end Known

end Memo

/-! ### One resolution -/

/-- What a run on a chain adds to the journal and to what is known. -/
structure Ran (scope : Scope) (chain : List Text) (start : Memo) (steps : List Step) (last : Memo) :
    Prop where
  journal : last.journal = steps ++ start.journal
  once : ∀ key, steps.count (.expanded key) ≤ 1
  /-- A text is expanded only while nothing is known, and off the chain. -/
  fresh : ∀ key, .expanded key ∈ steps →
    key ∉ chain ∧ start.known? scope key = none ∧ last.known? scope key ≠ none
  unchanged : ∀ key, .expanded key ∉ steps → last.known? scope key = start.known? scope key
  /-- What a search off its chain ends with is known from then on. -/
  answered : ∀ key other value, .answered key other value ∈ steps →
    chain ⊆ other ∧ (key ∉ other → last.known? scope key = some value)
  settled : ∀ key, (start.settled.lookup key).isSome → (last.settled.lookup key).isSome

/-- From every memory there are steps that the run makes. -/
def Runs (scope : Scope) (chain : List Text) {α : Type} (run : Memo → Outcome α) : Prop :=
  ∀ memo, ∃ steps, Ran scope chain memo steps (run memo).memo

namespace Ran

variable {scope : Scope} {chain : List Text} {start middle last : Memo} {steps more : List Step}

theorem refl (scope : Scope) (chain : List Text) (memo : Memo) : Ran scope chain memo [] memo where
  journal := rfl
  once _ := Nat.zero_le 1
  fresh _ h := by cases h
  unchanged _ _ := rfl
  answered _ _ _ h := by cases h
  settled _ h := h

/-- What is known stays known. -/
theorem kept (h : Ran scope chain start steps last) {key : Text} {answer : Option Text}
    (hknown : start.known? scope key = some answer) : last.known? scope key = some answer := by
  rw [h.unchanged key, hknown]
  intro hmem
  have hfresh := (h.fresh key hmem).2.1
  rw [hknown] at hfresh
  cases hfresh

theorem trans (h : Ran scope chain start steps middle) (h' : Ran scope chain middle more last) :
    Ran scope chain start (more ++ steps) last where
  journal := by rw [h'.journal, h.journal, List.append_assoc]
  once key := by
    rw [List.count_append]
    by_cases hmem : Step.expanded key ∈ steps
    · -- known after the first run, so not expanded in the second
      have hnot : Step.expanded key ∉ more := fun hmore => (h.fresh key hmem).2.2 (h'.fresh key hmore).2.1
      rw [List.count_eq_zero.2 hnot, Nat.zero_add]
      exact h.once key
    · rw [List.count_eq_zero.2 hmem]
      exact h'.once key
  fresh key hmem := by
    by_cases hsteps : Step.expanded key ∈ steps
    · obtain ⟨hchain, hstart, hmiddle⟩ := h.fresh key hsteps
      obtain ⟨answer, hanswer⟩ := Option.ne_none_iff_exists'.1 hmiddle
      exact ⟨hchain, hstart, by rw [h'.kept hanswer]; exact Option.some_ne_none answer⟩
    · obtain ⟨hchain, hmiddle, hlast⟩ := h'.fresh key ((List.mem_append.1 hmem).resolve_right hsteps)
      exact ⟨hchain, (h.unchanged key hsteps).symm.trans hmiddle, hlast⟩
  unchanged key hnot := by
    rw [List.mem_append, not_or] at hnot
    rw [h'.unchanged key hnot.1, h.unchanged key hnot.2]
  answered key other value hmem := by
    rcases List.mem_append.1 hmem with hmore | hsteps
    · exact h'.answered key other value hmore
    · obtain ⟨hchain, hanswer⟩ := h.answered key other value hsteps
      exact ⟨hchain, fun hother => h'.kept (hanswer hother)⟩
  settled key hsome := h'.settled key (h.settled key hsome)

theorem thrifty (h : Ran scope chain start steps last) : Thrifty steps where
  once := h.once
  consistent key other other' value value' hmem hmem' hother hother' := by
    have hvalue := (h.answered key other value hmem).2 hother
    have hvalue' := (h.answered key other' value' hmem').2 hother'
    exact Option.some.inj (hvalue.symm.trans hvalue')

/-- A search that is answered at once. -/
theorem answer {key : Text} {value : Option Text} (memo : Memo)
    (h : key ∉ chain → memo.known? scope key = some value) :
    Ran scope chain memo [.answered key chain value, .asked key chain]
      ((memo.record (.asked key chain)).record (.answered key chain value)) where
  journal := rfl
  once other := by simp
  fresh other hmem := by simp at hmem
  unchanged _ _ := rfl
  answered other others found hmem := by
    simp only [List.mem_cons, Step.answered.injEq, reduceCtorEq, List.not_mem_nil, or_false] at hmem
    obtain ⟨rfl, rfl, rfl⟩ := hmem
    exact ⟨List.Subset.refl _, h⟩
  settled _ hsome := hsome

/-- A search that expands the map's text for its key. -/
theorem expansion {key value : Text} {memo : Memo} {inner : List Step} (cut : Bool)
    (hmem : key ∉ chain) (hunknown : memo.known? scope key = none)
    (h : Ran scope (key :: chain) ((memo.record (.asked key chain)).record (.expanded key)) inner last) :
    Ran scope chain memo
      (.answered key chain (some value) :: (inner ++ [.expanded key, .asked key chain]))
      ((last.keep key value cut).record (.answered key chain (some value))) := by
  have hinner : Step.expanded key ∉ inner := fun hmem => (h.fresh key hmem).1 List.mem_cons_self
  have hlast : last.known? scope key = none := (h.unchanged key hinner).trans hunknown
  have hself : (last.keep key value cut).known? scope key = some (some value) :=
    Memo.known?_keep_self hlast cut
  refine ⟨?journal, ?once, ?fresh, ?unchanged, ?answered, ?settled⟩
  case journal =>
    have hkeep : (last.keep key value cut).journal = last.journal := by cases cut <;> rfl
    rw [Memo.record, hkeep, h.journal]
    simp [Memo.record]
  case once =>
    intro other
    have hcount := count_expanded_le_one hinner h.once other
    simpa [List.count_append, List.count_cons] using hcount
  case fresh =>
    intro other hexpanded
    by_cases hother : other = key
    · subst hother
      exact ⟨hmem, hunknown, by rw [Memo.known?_record, hself]; exact Option.some_ne_none _⟩
    · have hin : Step.expanded other ∈ inner := by simpa [hother] using hexpanded
      obtain ⟨hchain, hstart, hend⟩ := h.fresh other hin
      refine ⟨fun hmem => hchain (List.mem_cons_of_mem key hmem), hstart, ?_⟩
      rwa [Memo.known?_record, Memo.known?_keep_of_ne hother]
  case unchanged =>
    intro other hnot
    have hother : other ≠ key := by
      rintro rfl
      exact hnot (by simp)
    have hout : Step.expanded other ∉ inner := fun hin => hnot (by simp [hin])
    rw [Memo.known?_record, Memo.known?_keep_of_ne hother, h.unchanged other hout]
    rfl
  case answered =>
    intro other others found hanswered
    rcases List.mem_cons.1 hanswered with heq | hin
    · cases heq
      exact ⟨List.Subset.refl _, fun _ => hself⟩
    · have hin : Step.answered other others found ∈ inner := by simpa using hin
      obtain ⟨hchain, hanswer⟩ := h.answered other others found hin
      refine ⟨List.Subset.trans (List.subset_cons_self key chain) hchain, fun hoff => ?_⟩
      -- below, the key is on every chain
      have hother : other ≠ key := by
        rintro rfl
        exact hoff (hchain List.mem_cons_self)
      rw [Memo.known?_record, Memo.known?_keep_of_ne hother, hanswer hoff]
  case settled =>
    intro other hsome
    have hlastSome := h.settled other hsome
    cases cut with
    | true => exact hlastSome
    | false =>
        rw [Memo.keep_false, Memo.settled_record, Memo.settled_settle, List.lookup_cons]
        split
        · rfl
        · exact hlastSome

end Ran

section Runs

variable {scope : Scope} {chain : List Text} {raw before body rest key : Text}

theorem runs_plain (hfirst : firstPlaceholder raw = none) : Runs scope chain (expand scope chain raw) := by
  intro memo
  rw [expand_of_none hfirst]
  exact ⟨[], Ran.refl scope chain memo⟩

theorem runs_placeholder (hfirst : firstPlaceholder raw = some (before, body, rest))
    (hbody : Runs scope chain (evaluate scope chain body))
    (hrest : Runs scope chain (expand scope chain rest)) : Runs scope chain (expand scope chain raw) := by
  intro memo
  obtain ⟨steps, hhere⟩ := hbody memo
  obtain ⟨more, hthere⟩ := hrest (evaluate scope chain body memo).memo
  rw [expand_of_some hfirst]
  exact ⟨more ++ steps, hhere.trans hthere⟩

theorem runs_body (htext : Runs scope chain (expand scope chain (splitDefault body).1))
    (hfind : ∀ key, Runs scope chain (find scope chain key))
    (hdefault : Runs scope chain (expand scope chain (defaultOf body))) :
    Runs scope chain (evaluate scope chain body) := by
  intro memo
  obtain ⟨steps, hkey⟩ := htext memo
  obtain ⟨more, hfound⟩ := hfind (Text.trim (expand scope chain (splitDefault body).1 memo).value)
    (expand scope chain (splitDefault body).1 memo).memo
  cases hvalue : (find scope chain (Text.trim (expand scope chain (splitDefault body).1 memo).value)
      (expand scope chain (splitDefault body).1 memo).memo).value with
  | some value =>
      rw [evaluate_of_some hvalue]
      exact ⟨more ++ steps, hkey.trans hfound⟩
  | none =>
      obtain ⟨others, hother⟩ := hdefault (find scope chain
        (Text.trim (expand scope chain (splitDefault body).1 memo).value)
        (expand scope chain (splitDefault body).1 memo).memo).memo
      rw [evaluate_of_none hvalue]
      exact ⟨others ++ (more ++ steps), (hkey.trans hfound).trans hother⟩

theorem runs_key
    (ih : ∀ raw, key ∉ chain → scope.map.get? key = some raw →
      Runs scope (key :: chain) (expand scope (key :: chain) raw)) :
    Runs scope chain (find scope chain key) := by
  intro memo
  cases search_cases chain key (memo.settled.lookup key) (memo.provisional.lookup key)
      (scope.map.get? key) with
  | blank hkey =>
      subst hkey
      rw [find_nil]
      exact ⟨_, Ran.answer memo fun _ => Memo.known?_nil⟩
  | onChain hkey hchain =>
      rw [find_of_mem hkey hchain]
      exact ⟨_, Ran.answer memo fun hnot => absurd hchain hnot⟩
  | settled hkey hchain hsettled =>
      rw [find_of_settled hkey hchain hsettled]
      exact ⟨_, Ran.answer memo fun _ => Memo.known?_of_settled hkey hsettled⟩
  | provisional hkey hchain hsettled hprovisional =>
      rw [find_of_provisional hkey hchain hsettled hprovisional]
      exact ⟨_, Ran.answer memo fun _ => Memo.known?_of_provisional hkey hsettled hprovisional⟩
  | absent hkey hchain hsettled hprovisional hheld =>
      rw [find_of_absent hkey hchain hsettled hprovisional hheld]
      exact ⟨_, Ran.answer memo fun _ => Memo.known?_of_absent hkey hsettled hprovisional hheld⟩
  | @held raw hkey hchain hsettled hprovisional hheld =>
      have hunknown : memo.known? scope key = none :=
        Memo.known?_eq_none_iff.2 ⟨hkey, hsettled, hprovisional, by simp [hheld]⟩
      obtain ⟨inner, hinner⟩ := ih raw hchain hheld
        ((memo.record (.asked key chain)).record (.expanded key))
      rw [find_of_held hkey hchain hsettled hprovisional hheld]
      exact ⟨_, hinner.expansion _ hchain hunknown⟩

end Runs

theorem runs (scope : Scope) :
    (∀ chain raw, Runs scope chain (expand scope chain raw)) ∧
    (∀ chain body, Runs scope chain (evaluate scope chain body)) ∧
    (∀ chain key, Runs scope chain (find scope chain key)) := by
  refine resolution_induction scope ?plain ?placeholder ?body ?key
  case plain => exact fun _ _ hfirst => runs_plain hfirst
  case placeholder => exact fun _ _ _ _ _ hfirst hbody hrest => runs_placeholder hfirst hbody hrest
  case body => exact fun _ _ htext hfind hdefault => runs_body htext hfind hdefault
  case key => exact fun _ _ ih => runs_key ih

/-! ### Entries, one after another -/

section Entries

variable {scope : Scope} {memo last : Memo} {key raw value : Text} {steps : List Step}

theorem memo_resolveEntries_append (before after : List (Text × Text)) (memo : Memo) :
    (Evaluator.resolveEntries scope (before ++ after) memo).2 =
      (Evaluator.resolveEntries scope after (Evaluator.resolveEntries scope before memo).2).2 := by
  induction before generalizing memo with
  | nil => rfl
  | cons entry before ih =>
      rw [List.cons_append, Evaluator.resolveEntries, Evaluator.resolveEntries]
      split <;> exact ih _

theorem memo_resolveEntry_of_settled (h : memo.settled.lookup key = some value) :
    (Evaluator.resolveEntries scope [(key, raw)] memo).2 = memo := by
  rw [Evaluator.resolveEntries]
  simp only [h]
  rfl

theorem memo_resolveEntry (h : memo.settled.lookup key = none) :
    (Evaluator.resolveEntries scope [(key, raw)] memo).2 =
      let done := expand scope [key] raw (memo.renew.record (.expanded key))
      if done.cut then done.memo else done.memo.settle key done.value := by
  rw [Evaluator.resolveEntries]
  simp only [h]
  rfl

/-- An entry starts with the expansion of its own text, which no search below it repeats. -/
theorem Ran.thrifty_entry {start : Memo} (h : Ran scope [key] start steps last) :
    Thrifty (steps ++ [.expanded key]) where
  once := count_expanded_le_one (fun hmem => (h.fresh key hmem).1 List.mem_cons_self) h.once
  consistent other chain chain' value value' hmem hmem' :=
    h.thrifty.consistent other chain chain' value value' (by simpa using hmem) (by simpa using hmem')

theorem thrifty_resolveEntry (scope : Scope) (entry : Text × Text) (memo : Memo) :
    ∃ steps, (Evaluator.resolveEntries scope [entry] memo).2.journal = steps ++ memo.journal ∧
      Thrifty steps := by
  obtain ⟨key, raw⟩ := entry
  cases hsettled : memo.settled.lookup key with
  | some value =>
      rw [memo_resolveEntry_of_settled hsettled]
      exact ⟨[], rfl, (Ran.refl scope [] memo).thrifty⟩
  | none =>
      obtain ⟨steps, hran⟩ := (runs scope).1 [key] raw (memo.renew.record (.expanded key))
      refine ⟨steps ++ [.expanded key], ?_, hran.thrifty_entry⟩
      have hjournal : (expand scope [key] raw (memo.renew.record (.expanded key))).memo.journal =
          (steps ++ [.expanded key]) ++ memo.journal := by
        rw [hran.journal, List.append_assoc]
        rfl
      rw [memo_resolveEntry hsettled, ← hjournal]
      dsimp only
      split <;> rfl

/-! ### Stable keys over a whole map -/

/-- The text of the key has been expanded once at most, and not at all while its value is not settled. -/
def Memo.Spares (memo : Memo) (key : Text) : Prop :=
  memo.journal.count (.expanded key) ≤ if (memo.settled.lookup key).isSome then 1 else 0

theorem Memo.Spares.count_eq_zero (h : memo.Spares key) (hsettled : memo.settled.lookup key = none) :
    memo.journal.count (.expanded key) = 0 := by
  rw [Spares, hsettled] at h
  exact Nat.le_zero.1 h

theorem Memo.Spares.count_le_one (h : memo.Spares key) : memo.journal.count (.expanded key) ≤ 1 := by
  refine Nat.le_trans h ?_
  split <;> simp

theorem Memo.spares_of_settled (h : memo.journal.count (.expanded key) ≤ 1)
    (hsettled : (memo.settled.lookup key).isSome) : memo.Spares key := by
  rwa [Spares, if_pos hsettled]

/-- In a sound memory a stable key is known by its settled value alone. -/
theorem settled_of_known (hstable : Stable scope key value) (hmemo : memo.Sound scope) (hkey : key ≠ [])
    (hknown : memo.known? scope key ≠ none) : (memo.settled.lookup key).isSome := by
  obtain ⟨raw, hheld, -⟩ := id hstable
  cases hsettled : memo.settled.lookup key with
  | some found => rfl
  | none =>
      have hunknown : memo.known? scope key = none := Memo.known?_eq_none_iff.2
        ⟨hkey, hsettled, hmemo.provisional_of_stable hstable, by simp [hheld]⟩
      exact absurd hunknown hknown

/-- A run that ends in a sound memory goes on sparing a stable key. -/
theorem Ran.spares {chain : List Text} (h : Ran scope chain memo steps last)
    (hstable : Stable scope key value) (hlast : last.Sound scope) (hspares : memo.Spares key) :
    last.Spares key := by
  have hcount : last.journal.count (.expanded key) =
      steps.count (.expanded key) + memo.journal.count (.expanded key) := by
    rw [h.journal, List.count_append]
  by_cases hmem : Step.expanded key ∈ steps
  · obtain ⟨-, hunknown, hknown⟩ := h.fresh key hmem
    obtain ⟨hkey, hsettled, -, -⟩ := Memo.known?_eq_none_iff.1 hunknown
    refine Memo.spares_of_settled ?_ (settled_of_known hstable hlast hkey hknown)
    rw [hcount, hspares.count_eq_zero hsettled]
    exact h.once key
  · rw [List.count_eq_zero.2 hmem, Nat.zero_add] at hcount
    cases hsettled : memo.settled.lookup key with
    | some found =>
        exact Memo.spares_of_settled (hcount ▸ hspares.count_le_one) (h.settled key (by rw [hsettled]; rfl))
    | none =>
        rw [Memo.Spares, hcount, hspares.count_eq_zero hsettled]
        exact Nat.zero_le _

theorem Memo.Spares.settle (h : memo.Spares key) (other found : Text) :
    (memo.settle other found).Spares key := by
  refine Nat.le_trans (m := if (memo.settled.lookup key).isSome then 1 else 0) h ?_
  rw [settled_settle, List.lookup_cons]
  by_cases hkey : key = other
  · simp only [hkey, beq_self_eq_true, Option.isSome_some, ↓reduceIte]
    split <;> simp
  · simp only [beq_eq_false_iff_ne.2 hkey, Nat.le_refl]

/-- The entry of a stable key settles it; every other entry is a run that spares it. -/
theorem spares_resolveEntry (hstable : Stable scope key value) (hmemo : memo.Sound scope)
    (hspares : memo.Spares key) {other raw : Text} (hheld : scope.map.get? other = some raw) :
    (Evaluator.resolveEntries scope [(other, raw)] memo).2.Sound scope ∧
      (Evaluator.resolveEntries scope [(other, raw)] memo).2.Spares key := by
  cases hsettled : memo.settled.lookup other with
  | some found =>
      rw [memo_resolveEntry_of_settled hsettled]
      exact ⟨hmemo, hspares⟩
  | none =>
      have hbegin := hmemo.renew.record (.expanded other)
      obtain ⟨-, hsound, hsettles⟩ := expand_entry hbegin rfl hheld
      obtain ⟨steps, hran⟩ := (runs scope).1 [other] raw (memo.renew.record (.expanded other))
      rw [memo_resolveEntry hsettled]
      dsimp only
      by_cases hkey : key = other
      · subst hkey
        have hread := hstable.read hheld
        have hrun := (follows scope).1 [key] raw (congrArg Reading.cut hread) _ hbegin
        have hnot : Step.expanded key ∉ steps := fun hmem => (hran.fresh key hmem).1 List.mem_cons_self
        rw [if_neg (by simp [hrun.uncut])]
        refine ⟨hsound.settle (hsettles hrun.uncut), Memo.spares_of_settled ?_ (by simp)⟩
        have hjournal : (expand scope [key] raw (memo.renew.record (.expanded key))).memo.journal =
            steps ++ .expanded key :: memo.journal := hran.journal
        have hzero := hspares.count_eq_zero hsettled
        simp [Memo.settle, hjournal, List.count_eq_zero.2 hnot, hzero]
      · have hstart : (memo.renew.record (.expanded other)).Spares key := by
          have hne : Step.expanded other ≠ Step.expanded key := fun heq => hkey (Step.expanded.inj heq).symm
          have hcount : (Step.expanded other :: memo.journal).count (.expanded key) =
              memo.journal.count (.expanded key) := List.count_cons_of_ne hne
          exact Nat.le_trans (Nat.le_of_eq hcount) hspares
        have hlast := hran.spares hstable hsound hstart
        split
        · exact ⟨hsound, hlast⟩
        · rename_i huncut
          exact ⟨hsound.settle (hsettles (eq_false_of_ne_true huncut)), hlast.settle _ _⟩

theorem spares_resolveEntries (hstable : Stable scope key value) (hmemo : memo.Sound scope)
    (hspares : memo.Spares key) (entries : List (Text × Text))
    (hheld : ∀ other raw, (other, raw) ∈ entries → scope.map.get? other = some raw) :
    (Evaluator.resolveEntries scope entries memo).2.Spares key := by
  induction entries generalizing memo with
  | nil => exact hspares
  | cons entry entries ih =>
      obtain ⟨other, raw⟩ := entry
      obtain ⟨hsound, hentry⟩ :=
        spares_resolveEntry hstable hmemo hspares (hheld other raw List.mem_cons_self)
      have hrest := ih hsound hentry fun k r hmem => hheld k r (List.mem_cons_of_mem _ hmem)
      rwa [← memo_resolveEntries_append] at hrest

end Entries

/-- One resolution of a text or a key, and the resolution of one entry in the course of a map, expands the
text of no key twice and answers all searches for a key off the chain alike. Over a whole map, the text of
a key whose resolution meets no cut is expanded once at most. -/
theorem expands_once (evaluator : Evaluator) :
    (∀ raw, ∃ steps, (evaluator.resolve raw).2.memo.journal = steps ++ evaluator.memo.journal ∧
      Thrifty steps) ∧
    (∀ key, ∃ steps, (evaluator.lookup key).2.memo.journal = steps ++ evaluator.memo.journal ∧
      Thrifty steps) ∧
    (∀ before entry, ∃ steps,
      (Evaluator.resolveEntries evaluator.scope (before ++ [entry]) evaluator.memo).2.journal =
        steps ++ (Evaluator.resolveEntries evaluator.scope before evaluator.memo).2.journal ∧
      Thrifty steps) ∧
    ∀ key raw, evaluator.scope.map.get? key = some raw →
      (expand evaluator.scope [key] raw {}).cut = false →
      (Evaluator.resolveEntries evaluator.scope evaluator.scope.map.entries {}).2.journal.count
        (.expanded key) ≤ 1 := by
  refine ⟨fun raw => ?resolve, fun key => ?lookup, fun before entry => ?entry, ?whole⟩
  case resolve =>
    obtain ⟨steps, hran⟩ := (runs evaluator.scope).1 [] raw evaluator.memo.renew
    exact ⟨steps, hran.journal, hran.thrifty⟩
  case lookup =>
    obtain ⟨steps, hran⟩ := (runs evaluator.scope).2.2 [] (Text.trim key) evaluator.memo.renew
    exact ⟨steps, hran.journal, hran.thrifty⟩
  case entry =>
    rw [memo_resolveEntries_append]
    exact thrifty_resolveEntry evaluator.scope entry _
  case whole =>
    intro key raw hheld huncut
    have hstable := (expand_entry Memo.sound_empty rfl hheld).2.2 huncut
    have hspares := spares_resolveEntries hstable Memo.sound_empty (Nat.zero_le _)
      evaluator.scope.map.entries fun _ _ hmem => OrderedMap.get?_eq_some_iff.2 hmem
    exact hspares.count_le_one

/-- A key that an entry on a ring asks for, the other entry on the ring too, and that has its own entry. -/
theorem expands_site_once :
    site.map.get? "prod.url".toList = some "${host:${env}}".toList ∧
    (expand site ["prod.url".toList] "${host:${env}}".toList {}).cut = false ∧
    (Evaluator.resolveEntries site site.map.entries {}).2.journal.count
      (.expanded "prod.url".toList) ≤ 1 := by
  have hheld : site.map.get? "prod.url".toList = some "${host:${env}}".toList := by decide
  have hread : Plain.expand site ["prod.url".toList] "${host:${env}}".toList = ⟨"prod".toList, false⟩ := by
    cbv
  have huncut := ((follows site).1 _ _ (congrArg Reading.cut hread) {} Memo.sound_empty).uncut
  exact ⟨hheld, huncut, (expands_once { scope := site }).2.2.2 _ _ hheld huncut⟩

end LayeredConfig.Placeholder
