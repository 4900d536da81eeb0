import LayeredConfig.Proofs.OrderedMap
import LayeredConfig.Proofs.Placeholder.Dependence
import LayeredConfig.Proofs.Placeholder.Memory

/-! The memory of an evaluator shows in no answer. An evaluator that has answered any queries holds a
sound memory, so the next answer is the one a fresh evaluator gives, and an entry resolved in the
course of a whole map has the value it has when it is resolved alone. That value reads the map through
its look-ups only, so the order of the entries does not matter; and where the plain evaluator meets no
cut, it is what the plain evaluator reads. -/

namespace LayeredConfig.Placeholder

open Plain (Stable Unstable)

/-! ### Maps with the same answers -/

/-- Scopes whose maps give the same answers agree on every search. -/
theorem expand_congr (scope other : Scope) (hmap : ∀ key, scope.map.get? key = other.map.get? key)
    (hfallback : scope.fallback = other.fallback) (chain : List Text) (raw : Text) (memo : Memo) :
    expand scope chain raw memo = expand other chain raw memo := by
  have hagree : ∀ search ∈ (expand scope chain raw memo).memo.searches, Agree scope other search :=
    fun search _ => ⟨hmap search.1, fun _ => by rw [hfallback]⟩
  exact (((mirrors scope other).1 chain raw memo).same hagree).symm

/-! ### Entries -/

/-- The value of an entry that is resolved alone. -/
def entryValue (scope : Scope) (key raw : Text) : Text := (expand scope [key] raw {}).value

section Entries

variable {scope : Scope} {memo : Memo} {key raw value : Text}

theorem entryValue_of_stable (hheld : scope.map.get? key = some raw) (h : Stable scope key value) :
    entryValue scope key raw = value := by
  have hread := h.read hheld
  have hrun := (follows scope).1 [key] raw (congrArg Reading.cut hread) {} Memo.sound_empty
  rw [entryValue, hrun.value, hread]

/-- Resolving an entry in the course of a run gives its value, and leaves a sound memory. -/
theorem expand_entry (hmemo : memo.Sound scope) (hempty : memo.provisional = [])
    (hheld : scope.map.get? key = some raw) :
    (expand scope [key] raw memo).value = entryValue scope key raw ∧
    (expand scope [key] raw memo).memo.Sound scope ∧
    ((expand scope [key] raw memo).cut = false → Stable scope key (expand scope [key] raw memo).value) := by
  rcases Plain.stable_or_unstable hheld with hstable | hunstable
  · have hread := hstable.read hheld
    have hrun := (follows scope).1 [key] raw (congrArg Reading.cut hread) memo hmemo
    refine ⟨?_, hrun.sound, fun _ => ?_⟩
    · rw [hrun.value, entryValue_of_stable hheld hstable]
    · rw [hrun.value]
      exact hstable
  · have hchain : ∀ k ∈ [key], Unstable scope k := List.forall_mem_singleton.2 hunstable
    have hrun := (lockstep scope).1 [key] raw hchain memo {} ⟨hmemo, Memo.sound_empty, hempty⟩
    refine ⟨hrun.value, hrun.memo.left, fun huncut => ?_⟩
    rw [cut_of_unstable [key] hunstable hheld hmemo.faithful] at huncut
    cases huncut

theorem resolveEntries_eq (entries : List (Text × Text)) (hmemo : memo.Sound scope)
    (hheld : ∀ key raw, (key, raw) ∈ entries → scope.map.get? key = some raw) :
    (Evaluator.resolveEntries scope entries memo).1 =
      entries.map fun entry => (entry.1, entryValue scope entry.1 entry.2) := by
  induction entries generalizing memo with
  | nil => rfl
  | cons entry entries ih =>
      obtain ⟨key, raw⟩ := entry
      have hentry := hheld key raw List.mem_cons_self
      have hrest : ∀ k r, (k, r) ∈ entries → scope.map.get? k = some r :=
        fun k r hmem => hheld k r (List.mem_cons_of_mem _ hmem)
      rw [Evaluator.resolveEntries, List.map_cons]
      split
      · rename_i value hsettled
        have hstable := hmemo.faithful key value hsettled
        dsimp only
        rw [ih hmemo hrest, entryValue_of_stable hentry hstable]
      · have hbegin := hmemo.renew.record (.expanded key)
        obtain ⟨hvalue, hsound, hstable⟩ := expand_entry hbegin rfl hentry
        dsimp only
        rw [hvalue] at hstable ⊢
        split
        · rw [ih hsound hrest]
        · rename_i huncut
          have hsettled := hsound.settle (hstable (eq_false_of_ne_true huncut))
          rw [ih hsettled hrest]

theorem resolveMap_entries (map : OrderedMap Text) (fallback : Fallback) :
    (resolveMap map fallback).entries =
      map.entries.map fun entry => (entry.1, entryValue ⟨map, fallback⟩ entry.1 entry.2) :=
  resolveEntries_eq map.entries Memo.sound_empty fun _ _ hmem => OrderedMap.get?_eq_some_iff.2 hmem

theorem get?_resolveMap (map : OrderedMap Text) (fallback : Fallback) (key : Text) :
    (resolveMap map fallback).get? key = (map.get? key).map (entryValue ⟨map, fallback⟩ key) := by
  rw [OrderedMap.get?, resolveMap_entries]
  exact OrderedMap.lookup_map _ _ _

theorem keys_resolveMap (map : OrderedMap Text) (fallback : Fallback) :
    (resolveMap map fallback).keys = map.keys := by
  rw [OrderedMap.keys, resolveMap_entries, List.map_map]
  rfl

end Entries

namespace Evaluator

/-- A look-up gives the value of the map's entry for the trimmed key, and asks the fallback when there is none. -/
theorem lookup_eq (scope : Scope) (key : Text) :
    (Evaluator.lookup { scope } key).1 =
      if Text.trim key = [] then none
      else ((scope.map.get? (Text.trim key)).map (entryValue scope (Text.trim key))).or
        (scope.fallback (Text.trim key)) := by
  unfold lookup
  split
  · rename_i hempty
    rw [hempty, find_nil]
  · rename_i hne
    have hsound : (Memo.renew {}).Sound scope := Memo.sound_empty.renew
    cases hheld : scope.map.get? (Text.trim key) with
    | none => rw [find_of_absent hne List.not_mem_nil rfl rfl hheld, Option.map_none, Option.none_or]
    | some raw =>
        have hentry := (expand_entry
          ((hsound.record (.asked (Text.trim key) [])).record (.expanded (Text.trim key))) rfl hheld).1
        rw [find_of_held hne List.not_mem_nil rfl rfl hheld]
        exact congrArg some hentry

theorem lookup_of_held {scope : Scope} {key raw : Text} (hne : key ≠ []) (htrim : Text.trim key = key)
    (hheld : scope.map.get? key = some raw) :
    (Evaluator.lookup { scope } key).1 = some (entryValue scope key raw) := by
  rw [lookup_eq, htrim, if_neg hne, hheld, Option.map_some, Option.some_or]

end Evaluator

/-! ### Evaluators with a history -/

/-- A question that leaves the evaluator in use. -/
inductive Query where
  | resolve (raw : Text)
  | lookup (key : Text)

namespace Evaluator

def ask (evaluator : Evaluator) : Query → Evaluator
  | .resolve raw => (evaluator.resolve raw).2
  | .lookup key => (evaluator.lookup key).2

/-- The evaluator that has answered the queries in turn. -/
def after (scope : Scope) (history : List Query) : Evaluator := history.foldl ask { scope }

/-- The evaluator works in this scope, with a sound memory. -/
structure Ready (scope : Scope) (evaluator : Evaluator) : Prop where
  scope_eq : evaluator.scope = scope
  sound : evaluator.memo.Sound scope

section History

variable {scope : Scope} {evaluator : Evaluator}

theorem Ready.resolve (h : evaluator.Ready scope) (raw : Text) :
    (evaluator.resolve raw).1 = (Evaluator.resolve { scope } raw).1 ∧
      (evaluator.resolve raw).2.Ready scope := by
  obtain ⟨rfl, hsound⟩ := h
  have hrun := (lockstep evaluator.scope).1 [] raw (List.forall_mem_nil _) evaluator.memo.renew {}
    ⟨hsound.renew, Memo.sound_empty, Memo.provisional_renew _⟩
  exact ⟨hrun.value, rfl, hrun.memo.left⟩

theorem Ready.lookup (h : evaluator.Ready scope) (key : Text) :
    (evaluator.lookup key).1 = (Evaluator.lookup { scope } key).1 ∧
      (evaluator.lookup key).2.Ready scope := by
  obtain ⟨rfl, hsound⟩ := h
  have hrun := (lockstep evaluator.scope).2.2 [] (Text.trim key) (List.forall_mem_nil _)
    evaluator.memo.renew {} ⟨hsound.renew, Memo.sound_empty, Memo.provisional_renew _⟩
  exact ⟨hrun.value, rfl, hrun.memo.left⟩

theorem Ready.ask (h : evaluator.Ready scope) (query : Query) : (evaluator.ask query).Ready scope := by
  cases query with
  | resolve raw => exact (h.resolve raw).2
  | lookup key => exact (h.lookup key).2

theorem ready_after (scope : Scope) (history : List Query) : (after scope history).Ready scope := by
  have run : ∀ evaluator : Evaluator, evaluator.Ready scope → (history.foldl ask evaluator).Ready scope := by
    induction history with
    | nil => exact fun _ h => h
    | cons query history ih => exact fun _ h => ih _ (h.ask query)
  exact run { scope } ⟨rfl, Memo.sound_empty⟩

theorem Ready.resolveAll (h : evaluator.Ready scope) :
    evaluator.resolveAll = resolveMap scope.map scope.fallback := by
  obtain ⟨rfl, hsound⟩ := h
  have hentries : evaluator.resolveAll.entries =
      (resolveMap evaluator.scope.map evaluator.scope.fallback).entries := by
    rw [resolveMap_entries]
    exact resolveEntries_eq _ hsound fun _ _ hmem => OrderedMap.get?_eq_some_iff.2 hmem
  cases hleft : evaluator.resolveAll with
  | mk entries nodup =>
      rw [hleft] at hentries
      cases hentries
      rfl

end History

/-- Whatever an evaluator has answered before, its next answer is a fresh evaluator's. -/
theorem answer_after_history (scope : Scope) (history : List Query) :
    (∀ raw, ((after scope history).resolve raw).1 = (Evaluator.resolve { scope } raw).1) ∧
    (∀ key, ((after scope history).lookup key).1 = (Evaluator.lookup { scope } key).1) ∧
    (after scope history).resolveAll = resolveMap scope.map scope.fallback := by
  have hready := ready_after scope history
  exact ⟨fun raw => (hready.resolve raw).1, fun key => (hready.lookup key).1, hready.resolveAll⟩

end Evaluator

/-! ### Order of entries -/

/-- Maps that compare equal resolve to the same values, each in its own order. -/
theorem resolveMap_of_sameContent (left right : OrderedMap Text) (fallback : Fallback)
    (hsame : left.sameContent right = true) :
    (∀ key, (resolveMap left fallback).get? key = (resolveMap right fallback).get? key) ∧
    (resolveMap left fallback).keys = left.keys ∧ (resolveMap right fallback).keys = right.keys := by
  have hmap := OrderedMap.get?_eq_of_sameContent hsame
  refine ⟨fun key => ?_, keys_resolveMap left fallback, keys_resolveMap right fallback⟩
  rw [get?_resolveMap, get?_resolveMap, hmap key]
  cases right.get? key with
  | none => rfl
  | some raw =>
      have hexpand := expand_congr ⟨left, fallback⟩ ⟨right, fallback⟩ hmap rfl [key] raw {}
      rw [Option.map_some, Option.map_some, entryValue, entryValue, hexpand]

/-- Three keys that lead to each other, two of them with a default. -/
def knot : List (Text × Text) :=
  [("a".toList, "${b}|${c}".toList), ("b".toList, "${c}-${a:x}".toList), ("c".toList, "${b:y}".toList)]

theorem resolveMap_knot_reverse :
    (OrderedMap.ofList knot).sameContent (OrderedMap.ofList knot.reverse) = true ∧
    (∀ key, (resolveMap (.ofList knot) .silent).get? key =
      (resolveMap (.ofList knot.reverse) .silent).get? key) ∧
    (resolveMap (.ofList knot) .silent).keys = ["a".toList, "b".toList, "c".toList] ∧
    (resolveMap (.ofList knot.reverse) .silent).keys = ["c".toList, "b".toList, "a".toList] := by
  have hsame : (OrderedMap.ofList knot).sameContent (OrderedMap.ofList knot.reverse) = true := by decide
  obtain ⟨hvalues, hleft, hright⟩ := resolveMap_of_sameContent _ _ .silent hsame
  exact ⟨hsame, hvalues, hleft.trans (by decide), hright.trans (by decide)⟩

/-! ### The plain evaluator -/

/-- Where the plain evaluator meets no cut, every evaluator of the scope gives what it reads, and so
does the resolution of the whole map for an entry. -/
theorem resolve_eq_plain (scope : Scope) (history : List Query) :
    (∀ raw, (Plain.expand scope [] raw).cut = false →
      ((Evaluator.after scope history).resolve raw).1 = (Plain.expand scope [] raw).value) ∧
    (∀ key raw, (key, raw) ∈ scope.map.entries → (Plain.expand scope [key] raw).cut = false →
      (resolveMap scope.map scope.fallback).get? key = some (Plain.expand scope [key] raw).value) := by
  constructor
  · intro raw huncut
    rw [((Evaluator.ready_after scope history).resolve raw).1]
    exact ((follows scope).1 [] raw huncut _ Memo.sound_empty.renew).value
  · intro key raw hmem huncut
    have hheld := OrderedMap.get?_eq_some_iff.2 hmem
    have hstable := Plain.stable_of_uncut hheld huncut
    rw [get?_resolveMap, hheld, Option.map_some, entryValue_of_stable hheld hstable]

/-- Two keys in a ring that also use other keys; of these one is computed and one has a default. -/
def site : Scope where
  map := .ofList
    [("a".toList, "${b}${prod.url}".toList), ("b".toList, "${a}".toList), ("env".toList, "prod".toList),
      ("prod.url".toList, "${host:${env}}".toList)]
  fallback := .silent

theorem resolve_site :
    (Plain.expand site [] "${${env}.url}".toList).cut = false ∧
    ((Evaluator.after site [.lookup "a".toList, .resolve "${b}${a}".toList]).resolve
      "${${env}.url}".toList).1 = "prod".toList ∧
    ("prod.url".toList, "${host:${env}}".toList) ∈ site.map.entries ∧
    (Plain.expand site ["prod.url".toList] "${host:${env}}".toList).cut = false ∧
    (resolveMap site.map site.fallback).get? "prod.url".toList = some "prod".toList := by
  obtain ⟨hresolve, hentry⟩ := resolve_eq_plain site [.lookup "a".toList, .resolve "${b}${a}".toList]
  have htext : Plain.expand site [] "${${env}.url}".toList = ⟨"prod".toList, false⟩ := by cbv
  have hheld : Plain.expand site ["prod.url".toList] "${host:${env}}".toList = ⟨"prod".toList, false⟩ := by
    cbv
  have hmem : ("prod.url".toList, "${host:${env}}".toList) ∈ site.map.entries := by decide
  have hcut := congrArg Reading.cut htext
  have hcutHeld := congrArg Reading.cut hheld
  refine ⟨hcut, (hresolve _ hcut).trans ?_, hmem, hcutHeld, (hentry _ _ hmem hcutHeld).trans ?_⟩
  · rw [htext]
  · rw [hheld]

end LayeredConfig.Placeholder
