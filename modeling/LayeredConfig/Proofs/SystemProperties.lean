import LayeredConfig.Proofs.OrderedMap
import LayeredConfig.Proofs.Text.Utf16
import LayeredConfig.SystemProperties
import Mathlib.Data.List.Induction

/-! System properties under a history of changes. The host sets values and takes them back, in any order and
under any keys. What stands under a key is told by the last change of just this key, however the other keys
are spelt; where nothing stands, the environment and the built-in facts answer in their turn. The facts are what
the platform tells of the user's home and of the working directory, and the user's name from the environment. -/

namespace LayeredConfig.Environment

/-- The variable has the value: the first definition that starts with the name and an equals sign goes on with
the value. -/
def Defines (environment : Environment) (name value : Text) : Prop :=
  ∃ before definition after, environment.definitions = before ++ definition :: after ∧
    definition.1 ++ '=' :: definition.2 = name ++ '=' :: value ∧
    ∀ earlier ∈ before, ¬ name ++ ['='] <+: earlier.1 ++ '=' :: earlier.2

section Answers

variable {environment : Environment} {name value : Text}

theorem definition_eq_iff {definition : Text} :
    (name ++ ['='] <+: definition ∧ definition.drop (name.length + 1) = value) ↔
      definition = name ++ '=' :: value := by
  constructor
  · rintro ⟨hstarts, rfl⟩
    have hwhole := List.prefix_iff_eq_append.1 hstarts
    rw [List.length_append, List.length_singleton, List.append_assoc, List.singleton_append] at hwhole
    exact hwhole.symm
  · rintro rfl
    exact ⟨⟨value, by simp⟩, by simp⟩

theorem valueOf?_eq_some_iff : environment.valueOf? name = some value ↔ environment.Defines name value := by
  rw [valueOf?, List.findSome?_eq_some_iff, Defines]
  simp only [Option.ite_none_right_eq_some, ite_eq_right_iff, List.isPrefixOf_iff_prefix, Option.some_inj,
    reduceCtorEq, imp_false, definition_eq_iff]

/-- The first of several answers. -/
theorem findSome?_id_cons (answer : Option Text) (rest : List (Option Text)) :
    (answer :: rest).findSome? id = answer.or (rest.findSome? id) := by
  cases answer <;> rfl

/-- An answer from a table of keys. -/
theorem join_lookup_cons (key other : Text) (answer : Option Text) (table : List (Text × Option Text)) :
    (((other, answer) :: table).lookup key).join =
      if key = other then answer else (table.lookup key).join := by
  by_cases hkey : key = other
  · rw [if_pos hkey, hkey, List.lookup_cons_self, Option.join_some]
  · rw [if_neg hkey, List.lookup_cons, beq_false_of_ne hkey]

/-- What is built in, key by key. -/
theorem builtin?_eq (environment : Environment) (key : Text) :
    environment.builtin? key =
      ([("user.home".toList, environment.home),
        ("user.name".toList,
          [environment.valueOf? "USER".toList, environment.valueOf? "USERNAME".toList].findSome? id),
        ("user.dir".toList, environment.workingDirectory)].lookup key).join := by
  rw [builtin?, join_lookup_cons, join_lookup_cons, join_lookup_cons, findSome?_id_cons, findSome?_id_cons,
    List.findSome?_nil, Option.or_none]
  rfl

end Answers

end LayeredConfig.Environment

namespace LayeredConfig.SystemProperties

/-- What the host does. Setting a value in place and setting it while the properties are built are one. -/
inductive Change where
  | set (key value : Text)
  | take (key : Text)

namespace Change

def key : Change → Text
  | set key _ => key
  | take key => key

/-- What stands under the key after the change. -/
def value? : Change → Option Text
  | set _ value => some value
  | take _ => none

def apply (properties : SystemProperties) : Change → SystemProperties
  | set key value => properties.set key value
  | take key => (properties.take key).2

end Change

/-- The properties after changes from the start. -/
def after (history : List Change) : SystemProperties := history.foldl Change.apply {}

/-- What the last change of a key has left there. -/
def standing (key : Text) (history : List Change) : Option Text :=
  (history.reverse.find? fun change => change.key = key).bind Change.value?

/-- A character as the names of variables spell it: a letter of ASCII in upper case, a point or a hyphen as an
underscore. -/
def spelt (c : Char) : Char :=
  if c = '.' ∨ c = '-' then '_'
  else if 'a' ≤ c ∧ c ≤ 'z' then Char.ofNat (c.toNat - 32)
  else c

section History

variable {history : List Change} {key : Text}

/-- What one change does to the values that stand. -/
theorem override?_apply (properties : SystemProperties) (change : Change) (key : Text) :
    (change.apply properties).override? key =
      if change.key = key then change.value? else properties.override? key := by
  cases change with
  | set other value =>
      rw [Change.apply, set, override?, OrderedMap.get?_put]
      exact if_congr eq_comm rfl rfl
  | take other =>
      rw [Change.apply, take, remove, override?, OrderedMap.get?_erase]
      exact if_congr eq_comm rfl rfl

theorem standing_append_singleton (key : Text) (history : List Change) (change : Change) :
    standing key (history ++ [change]) =
      if change.key = key then change.value? else standing key history := by
  rw [standing, List.reverse_append, List.reverse_singleton, List.singleton_append, List.find?_cons]
  by_cases hkey : change.key = key
  · simp [hkey]
  · simp [hkey, standing]

/-- What a run of changes leaves. -/
theorem override?_after (history : List Change) (key : Text) :
    (after history).override? key = standing key history := by
  induction history using List.reverseRecOn with
  | nil => rfl
  | append_singleton history change ih =>
      rw [standing_append_singleton, after, List.foldl_append, List.foldl_cons, List.foldl_nil,
        override?_apply, ← after, ih]

theorem standing_filter (key : Text) (history : List Change) :
    standing key (history.filter fun change => change.key = key) = standing key history := by
  rw [standing, ← List.filter_reverse, List.find?_filter, standing]
  simp only [decide_eq_true_eq, and_self]

/-- A value stands when it has been set and its key has not been changed since. -/
theorem standing_eq_some_iff {value : Text} :
    standing key history = some value ↔
      ∃ earlier later, history = earlier ++ .set key value :: later ∧
        ∀ change ∈ later, change.key ≠ key := by
  rw [standing, Option.bind_eq_some_iff]
  constructor
  · rintro ⟨change, hfind, hvalue⟩
    obtain ⟨hkey, later, earlier, hsplit, hlater⟩ := List.find?_eq_some_iff_append.1 hfind
    cases change with
    | take other => cases hvalue
    | set other held =>
        cases hvalue
        obtain rfl : other = key := of_decide_eq_true hkey
        refine ⟨earlier.reverse, later.reverse, ?_, fun change hmem => ?_⟩
        · simpa using congrArg List.reverse hsplit
        · simpa using hlater change (List.mem_reverse.1 hmem)
  · rintro ⟨earlier, later, rfl, hlater⟩
    refine ⟨.set key value, List.find?_eq_some_iff_append.2
      ⟨decide_eq_true rfl, later.reverse, earlier.reverse, ?_, ?_⟩, rfl⟩
    · simp
    · intro change hmem
      simpa using hlater change (List.mem_reverse.1 hmem)

theorem toUpper_eq (c : Char) :
    c.toUpper = if 'a' ≤ c ∧ c ≤ 'z' then Char.ofNat (c.toNat - 32) else c := by
  by_cases h : 'a' ≤ c ∧ c ≤ 'z'
  · have hupper : c.toUpper = ⟨c.val + ('A'.val - 'a'.val), _⟩ := dif_pos h
    have hrange : 97 ≤ c.toNat ∧ c.toNat ≤ 122 := h
    have hshift : ('A'.val - 'a'.val).toNat = 2 ^ 32 - 32 := rfl
    rw [if_pos h, ← Char.toNat_inj, hupper, Utf16.toNat_ofNat (.inl (by omega))]
    calc (c.val + ('A'.val - 'a'.val)).toNat = (c.toNat + (2 ^ 32 - 32)) % 2 ^ 32 := by
          rw [UInt32.toNat_add, hshift]
          rfl
      _ = c.toNat - 32 := by omega
  · rw [if_neg h]
    exact dif_neg h

theorem variableName_eq (key : Text) : Environment.variableName key = key.map spelt := by
  rw [Environment.variableName]
  apply List.map_congr_left
  intro c _
  rw [toUpper_eq, spelt]

/-- What answers for a key: the value that stands, and without one the first that is defined. -/
theorem property_eq (properties : SystemProperties) (environment : Environment) (key : Text) :
    properties.property environment key =
      (properties.override? key).or
        (if key = [] then none
          else [environment.valueOf? key, environment.valueOf? (key.map spelt),
            environment.builtin? key].findSome? id) := by
  rw [property, ← variableName_eq, Environment.findSome?_id_cons, Environment.findSome?_id_cons,
    Environment.findSome?_id_cons, List.findSome?_nil, Option.or_none, ← Option.or_assoc]
  cases properties.override? key <;> rfl

end History

/-- After any history a key has the value that was set last under just this key, unless it has been taken back
since; otherwise the environment answers, first under the key itself and then under its spelling as a variable,
and then the built-in facts, which are the user's home and name and the working directory; the empty key has no
such answer. Taking a key gives back what stands under it, and changes of other keys have no part in that,
whatever their spelling. -/
theorem property_after_history (environment : Environment) (history : List Change) (key : Text) :
    (after history).property environment key =
        (standing key history).or
          (if key = [] then none
            else [environment.valueOf? key, environment.valueOf? (key.map spelt),
              ([("user.home".toList, environment.home),
                ("user.name".toList,
                  [environment.valueOf? "USER".toList, environment.valueOf? "USERNAME".toList].findSome? id),
                ("user.dir".toList, environment.workingDirectory)].lookup key).join].findSome? id) ∧
      (∀ name value, environment.valueOf? name = some value ↔ environment.Defines name value) ∧
      (∀ value, standing key history = some value ↔
        ∃ earlier later, history = earlier ++ .set key value :: later ∧
          ∀ change ∈ later, change.key ≠ key) ∧
      ((after history).take key).1 = standing key history ∧
      (after history).override? key =
        (after (history.filter fun change => change.key = key)).override? key := by
  refine ⟨?_, fun name value => Environment.valueOf?_eq_some_iff, fun value => standing_eq_some_iff,
    override?_after history key, ?_⟩
  · rw [property_eq, override?_after, Environment.builtin?_eq]
  · rw [override?_after, override?_after, standing_filter]

/-- The value under the spelling of a key is another one. -/
example :
    (after [.set "a.b".toList "1".toList, .set "A_B".toList "2".toList, .take "a.b".toList]).property
        { definitions := [("A_B".toList, "3".toList)] } "a.b".toList = some "3".toList := by
  decide

end LayeredConfig.SystemProperties
