import LayeredConfig.Fallback
import LayeredConfig.Placeholder.Scan

/-! Resolution of placeholders. A key is sought in the map, then in the fallback source, then its
default is taken; what the map holds is resolved in its turn, so references chain. Each search carries
the chain of map keys that are being resolved. A key met again on its own chain is cut: the map is
passed over and the search goes on with the fallback and the default.

A value that met no cut is *settled* and serves every later search. A value that met one depends on
the chain it was found under; it is *provisional* and serves only until the current resolution ends.
So within one resolution a key is expanded once at most, and branching cycles cost no more than the
map is large. -/

namespace LayeredConfig.Placeholder

/-- What a resolution reads. -/
structure Scope where
  map : OrderedMap Text
  /-- Asked for a key that the map does not answer. -/
  fallback : Fallback

/-- A step of a resolution that can be observed. -/
inductive Step where
  /-- A key is sought, under a chain of keys that are being resolved. -/
  | asked (key : Text) (chain : List Text)
  /-- The map's text for a key is expanded. -/
  | expanded (key : Text)
  /-- The search for a key ends with a value, or without one. -/
  | answered (key : Text) (chain : List Text) (value : Option Text)
  deriving DecidableEq, Repr

/-- What a resolution remembers. -/
structure Memo where
  settled : List (Text × Text) := []
  provisional : List (Text × Text) := []
  /-- The steps so far, the latest first. -/
  journal : List Step := []

namespace Memo

/-- The memory with which the next resolution starts. -/
def renew (memo : Memo) : Memo := { memo with provisional := [] }

def record (memo : Memo) (step : Step) : Memo := { memo with journal := step :: memo.journal }

def settle (memo : Memo) (key value : Text) : Memo :=
  { memo with settled := (key, value) :: memo.settled }

/-- Keeps a value as provisional when a cut went into it, and as settled otherwise. -/
def keep (memo : Memo) (key value : Text) (cut : Bool) : Memo :=
  if cut then { memo with provisional := (key, value) :: memo.provisional } else memo.settle key value

/-- The searches on record, each with its chain. -/
def searches (memo : Memo) : List (Text × List Text) :=
  memo.journal.filterMap fun
    | .asked key chain => some (key, chain)
    | _ => none

@[simp] theorem provisional_renew (memo : Memo) : memo.renew.provisional = [] := rfl

@[simp] theorem settled_record (memo : Memo) (step : Step) : (memo.record step).settled = memo.settled := rfl

@[simp] theorem provisional_record (memo : Memo) (step : Step) :
    (memo.record step).provisional = memo.provisional := rfl

@[simp] theorem settled_settle (memo : Memo) (key value : Text) :
    (memo.settle key value).settled = (key, value) :: memo.settled := rfl

@[simp] theorem keep_false (memo : Memo) (key value : Text) :
    memo.keep key value false = memo.settle key value := rfl

@[simp] theorem keep_true (memo : Memo) (key value : Text) :
    memo.keep key value true = { memo with provisional := (key, value) :: memo.provisional } := rfl

@[simp] theorem searches_asked (memo : Memo) (key : Text) (chain : List Text) :
    (memo.record (.asked key chain)).searches = (key, chain) :: memo.searches := rfl

@[simp] theorem searches_expanded (memo : Memo) (key : Text) :
    (memo.record (.expanded key)).searches = memo.searches := rfl

@[simp] theorem searches_answered (memo : Memo) (key : Text) (chain : List Text) (value : Option Text) :
    (memo.record (.answered key chain value)).searches = memo.searches := rfl

@[simp] theorem searches_settle (memo : Memo) (key value : Text) :
    (memo.settle key value).searches = memo.searches := rfl

@[simp] theorem searches_keep (memo : Memo) (key value : Text) (cut : Bool) :
    (memo.keep key value cut).searches = memo.searches := by
  cases cut <;> rfl

end Memo

/-- The result of resolving a piece of text. -/
structure Outcome (α : Type) where
  value : α
  /-- A cycle was cut on the way to the value. -/
  cut : Bool
  memo : Memo

/-- The number of map keys that the chain leaves free. -/
def free (scope : Scope) (chain : List Text) : Nat :=
  (scope.map.keys.filter (· ∉ chain)).length

theorem free_cons_lt {scope : Scope} {chain : List Text} {key raw : Text} (onChain : key ∉ chain)
    (inMap : scope.map.get? key = some raw) : free scope (key :: chain) < free scope chain := by
  have mem : key ∈ scope.map.keys := OrderedMap.mem_keys_of_get? inMap
  have split : scope.map.keys.filter (· ∉ key :: chain)
      = (scope.map.keys.filter (· ∉ chain)).filter (· ≠ key) := by
    rw [List.filter_filter]
    apply List.filter_congr
    intro k _
    by_cases h : k = key <;> by_cases h' : k ∈ chain <;> simp [h, h']
  unfold free
  rw [split]
  apply List.length_filter_lt_length_iff_exists.2
  exact ⟨key, by simp [mem, onChain], by simp⟩

mutual

/-- Replaces each placeholder of `raw` from left to right and leaves the text between them alone. A
`${` that nothing closes is ordinary text. -/
def expand (scope : Scope) (chain : List Text) (raw : Text) (memo : Memo) : Outcome Text :=
  match _open : splitOpen raw with
  | none => ⟨raw, false, memo⟩
  | some (before, after) =>
    match _close : splitClose after with
    | none => ⟨raw, false, memo⟩
    | some (body, rest) =>
      let here := evaluate scope chain body memo
      let there := expand scope chain rest here.memo
      ⟨before ++ here.value ++ there.value, here.cut || there.cut, there.memo⟩
termination_by (free scope chain, raw.length, 0)
decreasing_by
  all_goals
    have h₁ := length_of_splitOpen _open
    have h₂ := length_of_splitClose _close
    apply Prod.Lex.right
    apply Prod.Lex.left
    omega

/-- The value of the placeholder with the given body: what is found for its key, else its default,
else the empty text. The default is expanded only when it is needed. -/
def evaluate (scope : Scope) (chain : List Text) (body : Text) (memo : Memo) : Outcome Text :=
  let key := expand scope chain (splitDefault body).1 memo
  let found := find scope chain (Text.trim key.value) key.memo
  match found.value with
  | some value => ⟨value, key.cut || found.cut, found.memo⟩
  | none =>
    match _default : (splitDefault body).2 with
    | none => ⟨[], key.cut || found.cut, found.memo⟩
    | some default =>
      let other := expand scope chain default found.memo
      ⟨other.value, key.cut || found.cut || other.cut, other.memo⟩
termination_by (free scope chain, body.length, 1)
decreasing_by
  · have h := length_fst_defaultAt 0 body
    apply Prod.Lex.right
    rcases Nat.lt_or_eq_of_le h with h | h
    · exact Prod.Lex.left _ _ h
    · unfold splitDefault
      rw [h]
      exact Prod.Lex.right _ Nat.zero_lt_one
  · apply Prod.Lex.right
    rcases Nat.eq_zero_or_pos body.length with h | h
    · rw [h]
      exact Prod.Lex.right _ Nat.zero_lt_one
    · exact Prod.Lex.left _ _ h
  · have h := length_snd_defaultAt _default
    apply Prod.Lex.right
    exact Prod.Lex.left _ _ h

/-- Seeks a key: in the map unless the key is on the chain, else in the fallback source. The empty key
is found nowhere. -/
def find (scope : Scope) (chain : List Text) (key : Text) (memo : Memo) : Outcome (Option Text) :=
  let memo := memo.record (.asked key chain)
  let found : Outcome (Option Text) :=
    if key = [] then ⟨none, false, memo⟩
    else if _onChain : key ∈ chain then ⟨scope.fallback key, true, memo⟩
    else match memo.settled.lookup key with
      | some value => ⟨some value, false, memo⟩
      | none =>
        match memo.provisional.lookup key with
        | some value => ⟨some value, true, memo⟩
        | none =>
          match _inMap : scope.map.get? key with
          | none => ⟨scope.fallback key, false, memo⟩
          | some raw =>
            let held := expand scope (key :: chain) raw (memo.record (.expanded key))
            ⟨some held.value, held.cut, held.memo.keep key held.value held.cut⟩
  { found with memo := found.memo.record (.answered key chain found.value) }
termination_by (free scope chain, 0, 0)
decreasing_by
  exact Prod.Lex.left _ _ (free_cons_lt _onChain _inMap)

end

/-- A scope with the memory of the resolutions made in it. -/
structure Evaluator where
  scope : Scope
  memo : Memo := {}

namespace Evaluator

/-- Resolves every placeholder of a text. -/
def resolve (evaluator : Evaluator) (raw : Text) : Text × Evaluator :=
  let done := expand evaluator.scope [] raw evaluator.memo.renew
  (done.value, { evaluator with memo := done.memo })

/-- The value a placeholder with this key would find; the key is trimmed as a placeholder's is. -/
def lookup (evaluator : Evaluator) (key : Text) : Option Text × Evaluator :=
  let done := find evaluator.scope [] (Text.trim key) evaluator.memo.renew
  (done.value, { evaluator with memo := done.memo })

/-- Resolves entries one after another, each with its own key on the chain. -/
def resolveEntries (scope : Scope) : List (Text × Text) → Memo → List (Text × Text) × Memo
  | [], memo => ([], memo)
  | (key, raw) :: rest, memo =>
    match memo.settled.lookup key with
    | some value =>
      let others := resolveEntries scope rest memo
      ((key, value) :: others.1, others.2)
    | none =>
      let done := expand scope [key] raw (memo.renew.record (.expanded key))
      let memo := if done.cut then done.memo else done.memo.settle key done.value
      let others := resolveEntries scope rest memo
      ((key, done.value) :: others.1, others.2)

theorem keys_resolveEntries (scope : Scope) (entries : List (Text × Text)) (memo : Memo) :
    (resolveEntries scope entries memo).1.map Prod.fst = entries.map Prod.fst := by
  induction entries generalizing memo with
  | nil => rfl
  | cons entry rest ih =>
    obtain ⟨key, raw⟩ := entry
    unfold resolveEntries
    split <;> simp [ih]

/-- Resolves every entry of the map, in the map's order. -/
def resolveAll (evaluator : Evaluator) : OrderedMap Text where
  entries := (resolveEntries evaluator.scope evaluator.scope.map.entries evaluator.memo).1
  nodup := by
    rw [keys_resolveEntries]
    exact evaluator.scope.map.nodup

end Evaluator

/-- Resolves every value of a map against the map itself and a fallback source. -/
def resolveMap (map : OrderedMap Text) (fallback : Fallback) : OrderedMap Text :=
  Evaluator.resolveAll { scope := { map, fallback } }

end LayeredConfig.Placeholder
