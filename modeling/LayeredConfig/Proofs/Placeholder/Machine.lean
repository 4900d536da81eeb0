import LayeredConfig.Proofs.Placeholder.Recursion

/-! Resolution as a machine. One step of the machine scans to the next placeholder, decides one search
or hands one result to what waits for it; the chain is a stack that a search pushes on and a finished
expansion pops. Nothing in the step bounds a run. From every state of an evaluator the run of every
call ends, and ends with the answer and the memory of the evaluator; and in each state on the way the
chain holds distinct keys of the map. -/

namespace LayeredConfig.Placeholder

/-- What the machine is at. -/
inductive Control where
  /-- The text `done` is written; `rest` is still to be resolved. -/
  | scan (done : Text) (cut : Bool) (rest : Text)
  | body (text : Text)
  | key (key : Text)
  /-- A text has been resolved. -/
  | value (value : Text) (cut : Bool)
  /-- A search has ended. -/
  | answer (value : Option Text) (cut : Bool)
  /-- Entries still to be resolved, and the resolved ones. -/
  | entries (rest done : List (Text × Text))

/-- The entries that are still to be resolved. -/
def Control.ahead : Control → List (Text × Text)
  | .entries rest _ => rest
  | _ => []

/-- What waits for a result. -/
inductive Frame where
  | afterBody (done : Text) (cut : Bool) (rest : Text)
  | afterKey (default : Option Text)
  | afterSearch (default : Option Text) (cut : Bool)
  | afterDefault (cut : Bool)
  | afterHeld (key : Text)
  | afterEntry (key : Text) (rest done : List (Text × Text))

def Frame.ahead : Frame → List (Text × Text)
  | .afterEntry _ rest _ => rest
  | _ => []

structure Machine where
  control : Control
  stack : List Frame
  chain : List Text
  memo : Memo

namespace Machine

/-- The end of a search. -/
def answering (machine : Machine) (key : Text) (value : Option Text) (cut : Bool) : Machine :=
  { machine with
    control := .answer value cut
    memo := machine.memo.record (.answered key machine.chain value) }

/-- A search that has been asked for; it ends at once unless the map's text is to be expanded. -/
def search (scope : Scope) (machine : Machine) (key : Text) : Machine :=
  if key = [] then machine.answering key none false
  else if key ∈ machine.chain then machine.answering key (scope.fallback key) true
  else match machine.memo.settled.lookup key with
    | some value => machine.answering key (some value) false
    | none =>
      match machine.memo.provisional.lookup key with
      | some value => machine.answering key (some value) true
      | none =>
        match scope.map.get? key with
        | none => machine.answering key (scope.fallback key) false
        | some raw =>
          { control := .scan [] false raw
            stack := .afterHeld key :: machine.stack
            chain := key :: machine.chain
            memo := machine.memo.record (.expanded key) }

/-- One step; there is none from a state whose result nothing waits for. -/
def step (scope : Scope) : Machine → Option Machine
  | ⟨.scan done cut rest, stack, chain, memo⟩ =>
    match firstPlaceholder rest with
    | none => some ⟨.value (done ++ rest) cut, stack, chain, memo⟩
    | some (before, body, tail) =>
      some ⟨.body body, .afterBody (done ++ before) cut tail :: stack, chain, memo⟩
  | ⟨.body text, stack, chain, memo⟩ =>
    some ⟨.scan [] false (splitDefault text).1, .afterKey (splitDefault text).2 :: stack, chain, memo⟩
  | ⟨.key key, stack, chain, memo⟩ =>
    some (search scope ⟨.key key, stack, chain, memo.record (.asked key chain)⟩ key)
  | ⟨.value value cut, .afterBody done earlier rest :: stack, chain, memo⟩ =>
    some ⟨.scan (done ++ value) (earlier || cut) rest, stack, chain, memo⟩
  | ⟨.value value cut, .afterKey default :: stack, chain, memo⟩ =>
    some ⟨.key (Text.trim value), .afterSearch default cut :: stack, chain, memo⟩
  | ⟨.value value cut, .afterDefault earlier :: stack, chain, memo⟩ =>
    some ⟨.value value (earlier || cut), stack, chain, memo⟩
  | ⟨.value value cut, .afterHeld key :: stack, chain, memo⟩ =>
    some (answering ⟨.value value cut, stack, chain.tail, memo.keep key value cut⟩ key (some value) cut)
  | ⟨.value value cut, .afterEntry key rest done :: stack, _, memo⟩ =>
    some ⟨.entries rest (done ++ [(key, value)]), stack, [],
      if cut then memo else memo.settle key value⟩
  | ⟨.answer (some value) cut, .afterSearch _ earlier :: stack, chain, memo⟩ =>
    some ⟨.value value (earlier || cut), stack, chain, memo⟩
  | ⟨.answer none cut, .afterSearch none earlier :: stack, chain, memo⟩ =>
    some ⟨.value [] (earlier || cut), stack, chain, memo⟩
  | ⟨.answer none cut, .afterSearch (some default) earlier :: stack, chain, memo⟩ =>
    some ⟨.scan [] false default, .afterDefault (earlier || cut) :: stack, chain, memo⟩
  | ⟨.entries ((key, raw) :: rest) done, stack, chain, memo⟩ =>
    match memo.settled.lookup key with
    | some value => some ⟨.entries rest (done ++ [(key, value)]), stack, chain, memo⟩
    | none =>
      some ⟨.scan [] false raw, .afterEntry key rest done :: stack, [key],
        memo.renew.record (.expanded key)⟩
  | _ => none

/-- The state after `n` steps, when there are so many. -/
def run (scope : Scope) : Nat → Machine → Option Machine
  | 0, machine => some machine
  | n + 1, machine => (step scope machine).bind (run scope n)

/-! ### Runs -/

def Reaches (scope : Scope) (machine final : Machine) : Prop := ∃ n, run scope n machine = some final

section Reaches

variable {scope : Scope} {machine middle final : Machine}

theorem Reaches.refl (machine : Machine) : Reaches scope machine machine := ⟨0, rfl⟩

theorem Reaches.head (hstep : step scope machine = some middle) (h : Reaches scope middle final) :
    Reaches scope machine final := by
  obtain ⟨n, hrun⟩ := h
  refine ⟨n + 1, ?_⟩
  rw [run, hstep]
  exact hrun

theorem Reaches.trans (h : Reaches scope machine middle) (h' : Reaches scope middle final) :
    Reaches scope machine final := by
  obtain ⟨n, hrun⟩ := h
  induction n generalizing machine with
  | zero =>
      cases hrun
      exact h'
  | succ n ih =>
      obtain ⟨next, hstep, hrest⟩ := Option.bind_eq_some_iff.1 hrun
      exact .head hstep (ih hrest)

end Reaches

/-! ### The machine does what the evaluator does

From any stack and any memory it comes to what the evaluator returns, with the chain as it was. -/

def Expands (scope : Scope) (chain : List Text) (raw : Text) : Prop :=
  ∀ memo done cut stack,
    Reaches scope ⟨.scan done cut raw, stack, chain, memo⟩
      ⟨.value (done ++ (expand scope chain raw memo).value) (cut || (expand scope chain raw memo).cut),
        stack, chain, (expand scope chain raw memo).memo⟩

def Evaluates (scope : Scope) (chain : List Text) (body : Text) : Prop :=
  ∀ memo stack,
    Reaches scope ⟨.body body, stack, chain, memo⟩
      ⟨.value (evaluate scope chain body memo).value (evaluate scope chain body memo).cut,
        stack, chain, (evaluate scope chain body memo).memo⟩

def Finds (scope : Scope) (chain : List Text) (key : Text) : Prop :=
  ∀ memo stack,
    Reaches scope ⟨.key key, stack, chain, memo⟩
      ⟨.answer (find scope chain key memo).value (find scope chain key memo).cut,
        stack, chain, (find scope chain key memo).memo⟩

section Resolution

variable {scope : Scope} {chain : List Text} {raw before body rest key : Text}

/-- The expansion of a text of its own, with nothing written yet. -/
theorem Expands.whole (h : Expands scope chain raw) (memo : Memo) (stack : List Frame) :
    Reaches scope ⟨.scan [] false raw, stack, chain, memo⟩
      ⟨.value (expand scope chain raw memo).value (expand scope chain raw memo).cut,
        stack, chain, (expand scope chain raw memo).memo⟩ := by
  simpa only [List.nil_append, Bool.false_or] using h memo [] false stack

theorem expands_plain (hfirst : firstPlaceholder raw = none) : Expands scope chain raw := by
  intro memo done cut stack
  rw [expand_of_none hfirst, Bool.or_false]
  exact .head (by rw [step, hfirst]) (.refl _)

theorem expands_placeholder (hfirst : firstPlaceholder raw = some (before, body, rest))
    (hbody : Evaluates scope chain body) (hrest : Expands scope chain rest) : Expands scope chain raw := by
  intro memo done cut stack
  rw [expand_of_some hfirst]
  refine .head (by rw [step, hfirst]) ((hbody memo _).trans (.head rfl ?_))
  have hthere := hrest (evaluate scope chain body memo).memo
    (done ++ before ++ (evaluate scope chain body memo).value)
    (cut || (evaluate scope chain body memo).cut) stack
  simpa only [List.append_assoc, Bool.or_assoc] using hthere

theorem evaluates_body (htext : Expands scope chain (splitDefault body).1)
    (hfind : ∀ key, Finds scope chain key) (hdefault : Expands scope chain (defaultOf body)) :
    Evaluates scope chain body := by
  intro memo stack
  refine .head rfl ((htext.whole memo _).trans (.head rfl ((hfind _ _ _).trans ?_)))
  cases hvalue : (find scope chain (Text.trim (expand scope chain (splitDefault body).1 memo).value)
      (expand scope chain (splitDefault body).1 memo).memo).value with
  | some value =>
      rw [evaluate_of_some hvalue]
      exact .head rfl (.refl _)
  | none =>
      rw [evaluate_of_none hvalue]
      cases hsplit : (splitDefault body).2 with
      | none =>
          have hempty : defaultOf body = [] := by rw [defaultOf, hsplit, Option.getD_none]
          dsimp only
          rw [hempty, expand_nil, Bool.or_false]
          exact .head rfl (.refl _)
      | some default =>
          have hsome : defaultOf body = default := by rw [defaultOf, hsplit, Option.getD_some]
          rw [hsome] at hdefault ⊢
          exact .head rfl ((hdefault.whole _ _).trans (.head rfl (.refl _)))

theorem finds_key
    (ih : ∀ raw, key ∉ chain → scope.map.get? key = some raw → Expands scope (key :: chain) raw) :
    Finds scope chain key := by
  intro memo stack
  refine .head rfl ?_
  rw [search]
  cases search_cases chain key (memo.settled.lookup key) (memo.provisional.lookup key)
      (scope.map.get? key) with
  | blank hkey =>
      subst hkey
      rw [if_pos rfl, find_nil]
      exact .refl _
  | onChain hkey hchain =>
      rw [if_neg hkey, if_pos hchain, find_of_mem hkey hchain]
      exact .refl _
  | settled hkey hchain hsettled =>
      rw [if_neg hkey, if_neg hchain, Memo.settled_record, hsettled, find_of_settled hkey hchain hsettled]
      exact .refl _
  | provisional hkey hchain hsettled hprovisional =>
      rw [if_neg hkey, if_neg hchain, Memo.settled_record, Memo.provisional_record, hsettled, hprovisional,
        find_of_provisional hkey hchain hsettled hprovisional]
      exact .refl _
  | absent hkey hchain hsettled hprovisional hheld =>
      rw [if_neg hkey, if_neg hchain, Memo.settled_record, Memo.provisional_record, hsettled, hprovisional,
        hheld, find_of_absent hkey hchain hsettled hprovisional hheld]
      exact .refl _
  | @held raw hkey hchain hsettled hprovisional hheld =>
      rw [if_neg hkey, if_neg hchain, Memo.settled_record, Memo.provisional_record, hsettled, hprovisional,
        hheld, find_of_held hkey hchain hsettled hprovisional hheld]
      exact ((ih raw hchain hheld).whole _ _).trans (.head rfl (.refl _))

end Resolution

theorem reaches_resolution (scope : Scope) :
    (∀ chain raw, Expands scope chain raw) ∧ (∀ chain body, Evaluates scope chain body) ∧
      ∀ chain key, Finds scope chain key := by
  refine resolution_induction scope ?plain ?placeholder ?body ?key
  case plain => exact fun _ _ hfirst => expands_plain hfirst
  case placeholder => exact fun _ _ _ _ _ hfirst hbody hrest => expands_placeholder hfirst hbody hrest
  case body => exact fun _ _ htext hfind hdefault => evaluates_body htext hfind hdefault
  case key => exact fun _ _ ih => finds_key ih

theorem reaches_resolveEntries (scope : Scope) (rest done : List (Text × Text)) (memo : Memo) :
    Reaches scope ⟨.entries rest done, [], [], memo⟩
      ⟨.entries [] (done ++ (Evaluator.resolveEntries scope rest memo).1), [], [],
        (Evaluator.resolveEntries scope rest memo).2⟩ := by
  induction rest generalizing done memo with
  | nil =>
      rw [Evaluator.resolveEntries, List.append_nil]
      exact .refl _
  | cons entry rest ih =>
      obtain ⟨key, raw⟩ := entry
      rw [Evaluator.resolveEntries]
      cases hsettled : memo.settled.lookup key with
      | some value =>
          refine .head (by rw [step, hsettled]) ?_
          dsimp only
          rw [List.append_cons done _ (Evaluator.resolveEntries scope rest _).1]
          exact ih _ _
      | none =>
          have hexpand := (reaches_resolution scope).1 [key] raw
          refine .head (by rw [step, hsettled]) ((hexpand.whole _ _).trans (.head rfl ?_))
          dsimp only
          rw [List.append_cons done _ (Evaluator.resolveEntries scope rest _).1]
          exact ih _ _

/-! ### What a step does -/

/-- The steps, by what the machine is at and what waits for its result. A search ends at once, or it
expands the text of a key that is not on the chain. -/
inductive Moves (scope : Scope) : Machine → Machine → Prop where
  | plain {done cut rest stack chain memo} (hfirst : firstPlaceholder rest = none) :
      Moves scope ⟨.scan done cut rest, stack, chain, memo⟩ ⟨.value (done ++ rest) cut, stack, chain, memo⟩
  | placeholder {done cut rest before body tail stack chain memo}
      (hfirst : firstPlaceholder rest = some (before, body, tail)) :
      Moves scope ⟨.scan done cut rest, stack, chain, memo⟩
        ⟨.body body, .afterBody (done ++ before) cut tail :: stack, chain, memo⟩
  | body {text stack chain memo} :
      Moves scope ⟨.body text, stack, chain, memo⟩
        ⟨.scan [] false (splitDefault text).1, .afterKey (splitDefault text).2 :: stack, chain, memo⟩
  | answered {key value cut stack chain memo} :
      Moves scope ⟨.key key, stack, chain, memo⟩
        (answering ⟨.key key, stack, chain, memo.record (.asked key chain)⟩ key value cut)
  | held {key raw stack chain memo} (hchain : key ∉ chain) (hheld : scope.map.get? key = some raw) :
      Moves scope ⟨.key key, stack, chain, memo⟩
        ⟨.scan [] false raw, .afterHeld key :: stack, key :: chain,
          (memo.record (.asked key chain)).record (.expanded key)⟩
  | afterBody {value cut done earlier rest stack chain memo} :
      Moves scope ⟨.value value cut, .afterBody done earlier rest :: stack, chain, memo⟩
        ⟨.scan (done ++ value) (earlier || cut) rest, stack, chain, memo⟩
  | afterKey {value cut default stack chain memo} :
      Moves scope ⟨.value value cut, .afterKey default :: stack, chain, memo⟩
        ⟨.key (Text.trim value), .afterSearch default cut :: stack, chain, memo⟩
  | afterDefault {value cut earlier stack chain memo} :
      Moves scope ⟨.value value cut, .afterDefault earlier :: stack, chain, memo⟩
        ⟨.value value (earlier || cut), stack, chain, memo⟩
  | afterHeld {value cut key stack chain memo} :
      Moves scope ⟨.value value cut, .afterHeld key :: stack, chain, memo⟩
        (answering ⟨.value value cut, stack, chain.tail, memo.keep key value cut⟩ key (some value) cut)
  | afterEntry {value cut key rest done stack chain memo} :
      Moves scope ⟨.value value cut, .afterEntry key rest done :: stack, chain, memo⟩
        ⟨.entries rest (done ++ [(key, value)]), stack, [], if cut then memo else memo.settle key value⟩
  | found {value cut default earlier stack chain memo} :
      Moves scope ⟨.answer (some value) cut, .afterSearch default earlier :: stack, chain, memo⟩
        ⟨.value value (earlier || cut), stack, chain, memo⟩
  | undefaulted {cut earlier stack chain memo} :
      Moves scope ⟨.answer none cut, .afterSearch none earlier :: stack, chain, memo⟩
        ⟨.value [] (earlier || cut), stack, chain, memo⟩
  | defaulted {cut default earlier stack chain memo} :
      Moves scope ⟨.answer none cut, .afterSearch (some default) earlier :: stack, chain, memo⟩
        ⟨.scan [] false default, .afterDefault (earlier || cut) :: stack, chain, memo⟩
  | settledEntry {key raw value rest done stack chain memo} :
      Moves scope ⟨.entries ((key, raw) :: rest) done, stack, chain, memo⟩
        ⟨.entries rest (done ++ [(key, value)]), stack, chain, memo⟩
  | entry {key raw rest done stack chain memo} :
      Moves scope ⟨.entries ((key, raw) :: rest) done, stack, chain, memo⟩
        ⟨.scan [] false raw, .afterEntry key rest done :: stack, [key], memo.renew.record (.expanded key)⟩

section Moves

variable {scope : Scope} {machine successor : Machine}

theorem moves_search (scope : Scope) (key : Text) (stack : List Frame) (chain : List Text) (memo : Memo) :
    Moves scope ⟨.key key, stack, chain, memo⟩
      (search scope ⟨.key key, stack, chain, memo.record (.asked key chain)⟩ key) := by
  rw [search]
  by_cases hkey : key = []
  · rw [if_pos hkey]
    exact .answered
  rw [if_neg hkey]
  by_cases hchain : key ∈ chain
  · rw [if_pos hchain]
    exact .answered
  rw [if_neg hchain]
  split
  · exact .answered
  split
  · exact .answered
  split
  · exact .answered
  · rename_i raw hheld
    exact .held hchain hheld

theorem moves_of_step (hstep : step scope machine = some successor) : Moves scope machine successor := by
  unfold step at hstep
  split at hstep
  · split at hstep <;> cases hstep
    · exact .plain ‹_›
    · exact .placeholder ‹_›
  · cases hstep
    exact .body
  · cases hstep
    exact moves_search ..
  · cases hstep
    exact .afterBody
  · cases hstep
    exact .afterKey
  · cases hstep
    exact .afterDefault
  · cases hstep
    exact .afterHeld
  · cases hstep
    exact .afterEntry
  · cases hstep
    exact .found
  · cases hstep
    exact .undefaulted
  · cases hstep
    exact .defaulted
  · split at hstep <;> cases hstep
    · exact .settledEntry
    · exact .entry
  · cases hstep

/-- What every step keeps, a run keeps. -/
theorem run_keeps {P : Machine → Prop} (hkeeps : ∀ {machine successor}, P machine →
    Moves scope machine successor → P successor) {n : Nat} (h : P machine)
    (hrun : run scope n machine = some successor) : P successor := by
  induction n generalizing machine with
  | zero =>
      cases hrun
      exact h
  | succ n ih =>
      obtain ⟨middle, hstep, hrest⟩ := Option.bind_eq_some_iff.1 hrun
      exact ih (hkeeps h (moves_of_step hstep)) hrest

end Moves

/-! ### The chain in every state -/

/-- Distinct keys of the map. -/
structure ChainOn (scope : Scope) (chain : List Text) : Prop where
  nodup : chain.Nodup
  onMap : ∀ key ∈ chain, key ∈ scope.map.keys

theorem chainOn_nil (scope : Scope) : ChainOn scope [] := ⟨List.nodup_nil, List.forall_mem_nil _⟩

section ChainOn

variable {scope : Scope} {chain : List Text}

theorem ChainOn.cons {key : Text} (h : ChainOn scope chain) (hchain : key ∉ chain)
    (hkey : key ∈ scope.map.keys) : ChainOn scope (key :: chain) :=
  ⟨List.nodup_cons.2 ⟨hchain, h.nodup⟩, List.forall_mem_cons.2 ⟨hkey, h.onMap⟩⟩

theorem ChainOn.tail (h : ChainOn scope chain) : ChainOn scope chain.tail :=
  ⟨h.nodup.sublist (List.tail_sublist chain), fun key hmem => h.onMap key (List.mem_of_mem_tail hmem)⟩

end ChainOn

/-- The chain is one of distinct keys of the map, and so is that of every search on record but the
earlier ones; the entries that are still to be resolved are entries of the map. -/
structure Chained (scope : Scope) (earlier : List (Text × List Text)) (machine : Machine) : Prop where
  chain : ChainOn scope machine.chain
  searches : ∀ search ∈ machine.memo.searches, search ∈ earlier ∨ ChainOn scope search.2
  control : ∀ entry ∈ machine.control.ahead, entry.1 ∈ scope.map.keys
  stack : ∀ frame ∈ machine.stack, ∀ entry ∈ frame.ahead, entry.1 ∈ scope.map.keys

section Chained

variable {scope : Scope} {earlier : List (Text × List Text)} {control next : Control} {frame : Frame}
  {stack : List Frame} {chain : List Text} {memo memo' : Memo} {machine successor : Machine}

/-- The chain and the stack stay, and no search is put on record. -/
theorem Chained.goto (h : Chained scope earlier ⟨control, stack, chain, memo⟩) (hnext : next.ahead = [])
    (hmemo : memo'.searches = memo.searches) : Chained scope earlier ⟨next, stack, chain, memo'⟩ :=
  ⟨h.chain, by simpa only [hmemo] using h.searches, by simp [hnext], h.stack⟩

theorem Chained.asked (h : Chained scope earlier ⟨control, stack, chain, memo⟩) (key : Text) :
    Chained scope earlier ⟨control, stack, chain, memo.record (.asked key chain)⟩ := by
  refine ⟨h.chain, fun search hmem => ?_, h.control, h.stack⟩
  rw [Memo.searches_asked] at hmem
  rcases List.mem_cons.1 hmem with rfl | hmem
  · exact Or.inr h.chain
  · exact h.searches search hmem

theorem Chained.push (h : Chained scope earlier ⟨control, stack, chain, memo⟩) (hframe : frame.ahead = []) :
    Chained scope earlier ⟨control, frame :: stack, chain, memo⟩ := by
  refine ⟨h.chain, h.searches, h.control, List.forall_mem_cons.2 ⟨?_, h.stack⟩⟩
  rw [hframe]
  exact List.forall_mem_nil _

theorem Chained.pop (h : Chained scope earlier ⟨control, frame :: stack, chain, memo⟩) :
    Chained scope earlier ⟨control, stack, chain, memo⟩ :=
  ⟨h.chain, h.searches, h.control, (List.forall_mem_cons.1 h.stack).2⟩

theorem Chained.rechain {chain' : List Text} (h : Chained scope earlier ⟨control, stack, chain, memo⟩)
    (hchain : ChainOn scope chain') : Chained scope earlier ⟨control, stack, chain', memo⟩ :=
  ⟨hchain, h.searches, h.control, h.stack⟩

theorem Chained.answering (h : Chained scope earlier machine) (key : Text) (value : Option Text)
    (cut : Bool) : Chained scope earlier (machine.answering key value cut) :=
  h.goto rfl (Memo.searches_answered machine.memo key machine.chain value)

/-- What one step keeps. -/
theorem Chained.step (h : Chained scope earlier machine) (hmoves : Moves scope machine successor) :
    Chained scope earlier successor := by
  cases hmoves with
  | plain => exact h.goto rfl rfl
  | placeholder => exact (h.push rfl).goto rfl rfl
  | body => exact (h.push rfl).goto rfl rfl
  | answered => exact (h.asked _).answering _ _ _
  | @held key _ _ _ memo hchain hheld =>
      have hbelow := h.chain.cons hchain (OrderedMap.mem_keys_of_get? hheld)
      exact (((h.asked key).rechain hbelow).push rfl).goto rfl (Memo.searches_expanded _ key)
  | afterBody => exact h.pop.goto rfl rfl
  | afterKey => exact (h.pop.push rfl).goto rfl rfl
  | afterDefault => exact h.pop.goto rfl rfl
  | @afterHeld value cut key stack chain memo =>
      have hkept : Chained scope earlier ⟨.value value cut, stack, chain.tail, memo.keep key value cut⟩ :=
        (h.pop.rechain h.chain.tail).goto rfl (Memo.searches_keep memo key value cut)
      exact hkept.answering key (some value) cut
  | @afterEntry value cut key rest done stack chain memo =>
      have hsearches : (if cut then memo else memo.settle key value).searches = memo.searches := by
        split <;> simp
      refine ⟨chainOn_nil scope, fun search hmem => ?_, h.stack _ List.mem_cons_self, h.pop.stack⟩
      exact h.searches search (hsearches ▸ hmem)
  | found => exact h.pop.goto rfl rfl
  | undefaulted => exact h.pop.goto rfl rfl
  | defaulted => exact (h.pop.push rfl).goto rfl rfl
  | settledEntry => exact ⟨h.chain, h.searches, (List.forall_mem_cons.1 h.control).2, h.stack⟩
  | entry =>
      obtain ⟨hentry, hrest⟩ := List.forall_mem_cons.1 h.control
      exact ⟨(chainOn_nil scope).cons List.not_mem_nil hentry, h.searches, List.forall_mem_nil _,
        List.forall_mem_cons.2 ⟨hrest, h.stack⟩⟩

/-- What a run keeps. -/
theorem Chained.run {n : Nat} (h : Chained scope earlier machine)
    (hrun : machine.run scope n = some successor) : Chained scope earlier successor :=
  run_keeps Chained.step h hrun

end Chained

end Machine

/-! ### Calls of an evaluator -/

/-- What an evaluator can be asked to do. -/
inductive Call where
  | resolve (raw : Text)
  | lookup (key : Text)
  | resolveAll

namespace Machine

/-- The machine at the beginning of a call. -/
def start (evaluator : Evaluator) : Call → Machine
  | .resolve raw => ⟨.scan [] false raw, [], [], evaluator.memo.renew⟩
  | .lookup key => ⟨.key (Text.trim key), [], [], evaluator.memo.renew⟩
  | .resolveAll => ⟨.entries evaluator.scope.map.entries [], [], [], evaluator.memo⟩

theorem step_answer_nil (scope : Scope) (value : Option Text) (cut : Bool) (chain : List Text) (memo : Memo) :
    step scope ⟨.answer value cut, [], chain, memo⟩ = none := by
  cases value <;> rfl

/-- The machine at the end of a call: nothing waits any more, and the evaluator's answer is there. -/
def Answers (evaluator : Evaluator) (final : Machine) : Call → Prop
  | .resolve raw => ∃ cut,
      final = ⟨.value (evaluator.resolve raw).1 cut, [], [], (evaluator.resolve raw).2.memo⟩
  | .lookup key => ∃ cut,
      final = ⟨.answer (evaluator.lookup key).1 cut, [], [], (evaluator.lookup key).2.memo⟩
  | .resolveAll =>
      final = ⟨.entries [] evaluator.resolveAll.entries, [], [],
        (Evaluator.resolveEntries evaluator.scope evaluator.scope.map.entries evaluator.memo).2⟩

theorem reaches_answer (evaluator : Evaluator) (call : Call) :
    ∃ final, Reaches evaluator.scope (start evaluator call) final ∧
      step evaluator.scope final = none ∧ Answers evaluator final call := by
  cases call with
  | resolve raw =>
      have hrun := ((reaches_resolution evaluator.scope).1 [] raw).whole evaluator.memo.renew []
      exact ⟨_, hrun, rfl, _, rfl⟩
  | lookup key =>
      have hrun := (reaches_resolution evaluator.scope).2.2 [] (Text.trim key) evaluator.memo.renew []
      exact ⟨_, hrun, step_answer_nil _ _ _ _ _, _, rfl⟩
  | resolveAll =>
      have hrun := reaches_resolveEntries evaluator.scope evaluator.scope.map.entries [] evaluator.memo
      rw [List.nil_append] at hrun
      exact ⟨_, hrun, rfl, rfl⟩

theorem chained_start (evaluator : Evaluator) (call : Call) :
    Chained evaluator.scope evaluator.memo.searches (start evaluator call) := by
  cases call with
  | resolve raw =>
      exact ⟨chainOn_nil _, fun _ => Or.inl, List.forall_mem_nil _, List.forall_mem_nil _⟩
  | lookup key =>
      exact ⟨chainOn_nil _, fun _ => Or.inl, List.forall_mem_nil _, List.forall_mem_nil _⟩
  | resolveAll =>
      exact ⟨chainOn_nil _, fun _ => Or.inl, fun _ hmem => List.mem_map_of_mem hmem, List.forall_mem_nil _⟩

/-- Every call ends with the evaluator's answer, whatever the evaluator remembers. In each state of the
run the chain holds distinct keys of the map, and so does the chain of every search that the call has
put on record. -/
theorem halts_with_distinct_chain (evaluator : Evaluator) (call : Call) :
    (∃ n final, run evaluator.scope n (start evaluator call) = some final ∧
      step evaluator.scope final = none ∧ Answers evaluator final call) ∧
    ∀ n machine, run evaluator.scope n (start evaluator call) = some machine →
      ChainOn evaluator.scope machine.chain ∧
      ∀ search ∈ machine.memo.searches,
        search ∈ evaluator.memo.searches ∨ ChainOn evaluator.scope search.2 := by
  obtain ⟨final, ⟨n, hrun⟩, hend, hanswers⟩ := reaches_answer evaluator call
  refine ⟨⟨n, final, hrun, hend, hanswers⟩, fun m machine hmachine => ?_⟩
  have hchained := (chained_start evaluator call).run hmachine
  exact ⟨hchained.chain, hchained.searches⟩

/-- Two keys in a ring. -/
def ring : Evaluator where
  scope := ⟨.ofList [("a".toList, "${b}".toList), ("b".toList, "${a}".toList)], .silent⟩

/-- After ten steps both keys are on the chain. -/
theorem run_ring :
    ∃ machine, run ring.scope 10 (start ring (.resolve "${a}".toList)) = some machine ∧
      machine.chain = ["b".toList, "a".toList] ∧ ChainOn ring.scope machine.chain ∧
      ∀ search ∈ machine.memo.searches, search ∈ ring.memo.searches ∨ ChainOn ring.scope search.2 := by
  have hchain : (run ring.scope 10 (start ring (.resolve "${a}".toList))).map Machine.chain =
      some ["b".toList, "a".toList] := by decide
  obtain ⟨machine, hrun, hkeys⟩ := Option.map_eq_some_iff.1 hchain
  exact ⟨machine, hrun, hkeys, (halts_with_distinct_chain ring (.resolve "${a}".toList)).2 10 machine hrun⟩

end Machine

end LayeredConfig.Placeholder
