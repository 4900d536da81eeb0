import LayeredConfig.Proofs.Properties.Block
import LayeredConfig.Proofs.Properties.Price
import LayeredConfig.Proofs.Properties.Written
import LayeredConfig.Source
import Mathlib.Data.List.Forall2

/-! Which escapes of units are accepted. The reader goes through a part once, with the units that wait to be
decoded beside it; what it accepts is told by the places at which escapes stand: each escape is followed by
the name of a unit, and each longest run of escapes side by side encodes a text. Of a part that starts with
a run, the reader has accepted what it would have accepted of the run and the rest put together, and that
carries the induction. A name is four hexadecimal digits, but for the first of them a plus sign may stand. -/

namespace LayeredConfig.Properties

/-! ### Escapes and their places -/

/-- Four hexadecimal digits, and the unit they name. -/
inductive HexName : Text → Nat → Prop
  | digits {i j k l : Nat} {a b c d : Char} (ha : HexDigit i a) (hb : HexDigit j b) (hc : HexDigit k c)
      (hd : HexDigit l d) : HexName [a, b, c, d] (((i * 16 + j) * 16 + k) * 16 + l)

/-- The four characters that are read as a unit. -/
inductive UnitName : Text → Nat → Prop
  | digits {name : Text} {unit : Nat} (h : HexName name unit) : UnitName name unit
  | signed {j k l : Nat} {b c d : Char} (hb : HexDigit j b) (hc : HexDigit k c) (hd : HexDigit l d) :
      UnitName ['+', b, c, d] ((j * 16 + k) * 16 + l)

/-- The escape of a unit stands in a part: a backslash that no backslash takes with it, and `u`. -/
structure EscapeAt (part before after : Text) : Prop where
  text : part = before ++ '\\' :: 'u' :: after
  free : continues before = false

/-- The escapes of units, side by side. -/
def escapes (names : List Text) : Text := names.flatMap fun name => '\\' :: 'u' :: name

/-- A run of escapes in a part, and the units they name. No escape stands side by side with the first of
them, nor with the last. -/
structure RunAt (Names : Text → Nat → Prop) (part before : Text) (names : List Text) (units : List Nat)
    (after : Text) : Prop where
  text : part = before ++ (escapes names ++ after)
  free : continues before = false
  named : List.Forall₂ Names names units
  nonempty : names ≠ []
  first : ∀ earlier name unit, EscapeAt before earlier name → ¬Names name unit
  last : ¬['\\', 'u'] <+: after

/-- Every escape names a unit, and every run of escapes encodes a text. -/
structure WellEscaped (Names : Text → Nat → Prop) (part : Text) : Prop where
  named : ∀ before after, EscapeAt part before after → ∃ name unit rest, after = name ++ rest ∧ Names name unit
  paired : ∀ before names units after, RunAt Names part before names units after →
    ∃ s, units = Utf16.encode s

/-- The key and the value of a line are well escaped. -/
def LogicalLine.WellEscaped (Names : Text → Nat → Prop) (line : LogicalLine) : Prop :=
  Properties.WellEscaped Names (splitEntry line.text).1 ∧ Properties.WellEscaped Names (splitEntry line.text).2

/-- The first logical line of a text that is not well escaped. -/
structure FirstBroken (Names : Text → Nat → Prop) (lines : List Text) (line : LogicalLine) : Prop where
  held : Holds lines line
  broken : ¬line.WellEscaped Names
  first : ∀ earlier, Holds lines earlier → earlier.number < line.number → earlier.WellEscaped Names

/-! ### Names -/

section Names

variable {name : Text} {unit : Nat}

theorem eq_ofNat_of_between {lo hi a : Char} (h : lo ≤ a ∧ a ≤ hi) :
    a = Char.ofNat (lo.toNat + (a.toNat - lo.toNat)) ∧ a.toNat - lo.toNat ≤ hi.toNat - lo.toNat := by
  have hlo : lo.toNat ≤ a.toNat := h.1
  have hhi : a.toNat ≤ hi.toNat := h.2
  have hsum : lo.toNat + (a.toNat - lo.toNat) = a.toNat := by omega
  exact ⟨by rw [hsum, Char.ofNat_toNat], by omega⟩

/-- Only digits have a value. -/
theorem HexDigit.of_value {n : Nat} {a : Char} (h : Decimal.digitValue? 16 a = some n) : HexDigit n a := by
  have hdigits : ∀ k ≤ '9'.toNat - '0'.toNat, Nat.digitChar k = Char.ofNat ('0'.toNat + k) := by decide
  have hlower : ∀ k ≤ 'f'.toNat - 'a'.toNat, Nat.digitChar (k + 10) = Char.ofNat ('a'.toNat + k) := by decide
  have hupper : ∀ k ≤ 'F'.toNat - 'A'.toNat,
      (Nat.digitChar (k + 10)).toUpper = Char.ofNat ('A'.toNat + k) := by decide
  obtain ⟨hvalue, hbound⟩ := Option.filter_eq_some_iff.1 h
  have hlt : n < 16 := by simpa using hbound
  split at hvalue
  · rename_i hrange
    obtain ⟨ha, hk⟩ := eq_ofNat_of_between hrange
    cases hvalue
    have hdigit := HexDigit.lower hlt
    rwa [hdigits _ hk, ← ha] at hdigit
  · split at hvalue
    · rename_i hrange
      obtain ⟨ha, hk⟩ := eq_ofNat_of_between hrange
      cases hvalue
      have hdigit := HexDigit.lower hlt
      rwa [hlower _ hk, ← ha] at hdigit
    · split at hvalue
      · rename_i hrange
        obtain ⟨ha, hk⟩ := eq_ofNat_of_between hrange
        cases hvalue
        have hdigit := HexDigit.upper hlt
        rwa [hupper _ hk, ← ha] at hdigit
      · cases hvalue

theorem HexDigit.lt {n : Nat} {a : Char} (h : HexDigit n a) : n < 16 := by
  cases h <;> assumption

theorem UnitName.length_eq (h : UnitName name unit) : name.length = 4 := by
  cases h with
  | digits h => cases h; rfl
  | signed => rfl

theorem UnitName.not_mem (h : UnitName name unit) : '\\' ∉ name := by
  have hdigit : ∀ {n : Nat} {a : Char}, HexDigit n a → '\\' ≠ a := by
    rintro n _ ha rfl
    exact ha.plain.2.1 (by decide)
  cases h with
  | digits h =>
      cases h with
      | digits ha hb hc hd => simp [hdigit ha, hdigit hb, hdigit hc, hdigit hd]
  | signed hb hc hd => simp [hdigit hb, hdigit hc, hdigit hd]

theorem UnitName.lt (h : UnitName name unit) : unit < 0x10000 := by
  cases h with
  | digits h =>
      cases h with
      | digits ha hb hc hd =>
          have hbounds := And.intro (And.intro ha.lt hb.lt) (And.intro hc.lt hd.lt)
          omega
  | signed hb hc hd =>
      have hbounds := And.intro hb.lt (And.intro hc.lt hd.lt)
      omega

/-- A number with one more digit. -/
def withDigit (n : Nat) (c : Char) : Option Nat := (Decimal.digitValue? 16 c).map (n * 16 + ·)

theorem exists_digit_of_foldlM {n : Nat} {c : Char} {t : Text}
    (h : (c :: t).foldlM withDigit n = some unit) :
    ∃ i, HexDigit i c ∧ t.foldlM withDigit (n * 16 + i) = some unit := by
  rw [List.foldlM_cons] at h
  obtain ⟨m, hm, hrest⟩ := Option.bind_eq_some_iff.1 h
  obtain ⟨i, hi, rfl⟩ := Option.map_eq_some_iff.1 hm
  exact ⟨i, .of_value hi, hrest⟩

theorem unitName_of_unit? {a b c d : Char} (h : unit? [a, b, c, d] = some unit) :
    UnitName [a, b, c, d] unit := by
  by_cases hsign : a = '+'
  · subst hsign
    obtain ⟨j, hb, h⟩ := exists_digit_of_foldlM h
    obtain ⟨k, hc, h⟩ := exists_digit_of_foldlM h
    obtain ⟨l, hd, h⟩ := exists_digit_of_foldlM h
    cases h
    rw [Nat.zero_mul, Nat.zero_add]
    exact .signed hb hc hd
  · rw [unit?] at h
    · obtain ⟨i, ha, h⟩ := exists_digit_of_foldlM h
      obtain ⟨j, hb, h⟩ := exists_digit_of_foldlM h
      obtain ⟨k, hc, h⟩ := exists_digit_of_foldlM h
      obtain ⟨l, hd, h⟩ := exists_digit_of_foldlM h
      cases h
      rw [Nat.zero_mul, Nat.zero_add]
      exact .digits (.digits ha hb hc hd)
    · exact fun digits heq => hsign (List.cons.inj heq).1

theorem unit?_of_unitName {a b c d : Char} (h : UnitName [a, b, c, d] unit) :
    unit? [a, b, c, d] = some unit := by
  cases h with
  | digits h =>
      cases h with
      | digits ha hb hc hd => exact unit?_digits ha hb hc hd
  | signed hb hc hd => simp [unit?, Decimal.readDigits?, hb.value, hc.value, hd.value]

theorem UnitName.unique {unit' : Nat} (h : UnitName name unit) (h' : UnitName name unit') : unit = unit' := by
  obtain ⟨a, b, c, d, rfl⟩ := List.length_eq_four.1 h.length_eq
  exact Option.some.inj ((unit?_of_unitName h).symm.trans (unit?_of_unitName h'))

end Names

/-! ### Where escapes stand -/

section Places

variable {c : Char} {gap t part before after : Text}

theorem EscapeAt.append (h : EscapeAt t before after) (hgap : continues gap = false) :
    EscapeAt (gap ++ t) (gap ++ before) after :=
  ⟨by rw [h.text, List.append_assoc], by rw [continues_append hgap, h.free]⟩

/-- A text in which no escape of a unit begins, whatever follows it. -/
structure Passive (gap : Text) : Prop where
  whole : continues gap = false
  later : ∀ {t before after}, EscapeAt (gap ++ t) before after →
    ∃ b, before = gap ++ b ∧ EscapeAt t b after

theorem passive_nil : Passive [] := ⟨rfl, fun h => ⟨_, rfl, h⟩⟩

theorem Passive.append {gap' : Text} (h : Passive gap) (h' : Passive gap') : Passive (gap ++ gap') := by
  refine ⟨by rw [continues_append h.whole, h'.whole], fun hat => ?_⟩
  rw [List.append_assoc] at hat
  obtain ⟨b, rfl, hfirst⟩ := h.later hat
  obtain ⟨b, rfl, hsecond⟩ := h'.later hfirst
  exact ⟨b, (List.append_assoc ..).symm, hsecond⟩

theorem continues_singleton (hc : c ≠ '\\') : continues [c] = false := by
  rw [continues_cons_of_ne hc]
  rfl

theorem passive_char (hc : c ≠ '\\') : Passive [c] := by
  refine ⟨continues_singleton hc, fun {t before after} hat => ?_⟩
  cases before with
  | nil => exact absurd (List.cons.inj hat.text).1 hc
  | cons d before =>
      obtain ⟨rfl, htext⟩ := List.cons.inj hat.text
      have hfree := hat.free
      rw [← List.singleton_append, continues_append (continues_singleton hc)] at hfree
      exact ⟨before, rfl, htext, hfree⟩

/-- After a backslash and the character it takes. -/
theorem EscapeAt.of_taken (h : EscapeAt ('\\' :: c :: t) before after) :
    before = [] ∧ 'u' :: after = c :: t ∨ ∃ b, before = '\\' :: c :: b ∧ EscapeAt t b after := by
  obtain ⟨htext, hfree⟩ := h
  match before with
  | [] => exact .inl ⟨rfl, (List.cons.inj htext).2.symm⟩
  | [d] =>
      obtain ⟨rfl, -⟩ := List.cons.inj htext
      cases hfree
  | d :: e :: before =>
      obtain ⟨rfl, htaken⟩ := List.cons.inj htext
      obtain ⟨rfl, hrest⟩ := List.cons.inj htaken
      rw [continues_escape] at hfree
      exact .inr ⟨before, rfl, hrest, hfree⟩

theorem passive_escape (hc : c ≠ 'u') : Passive ['\\', c] := by
  refine ⟨by rw [continues_escape]; rfl, fun hat => ?_⟩
  rcases hat.of_taken with ⟨-, heq⟩ | ⟨b, rfl, hlater⟩
  · exact absurd (List.cons.inj heq).1.symm hc
  · exact ⟨b, rfl, hlater⟩

theorem passive_of_not_mem (h : '\\' ∉ gap) : Passive gap := by
  induction gap with
  | nil => exact passive_nil
  | cons c gap ih =>
      rw [List.mem_cons, not_or] at h
      exact (passive_char (Ne.symm h.1)).append (ih h.2)

end Places

/-! ### Parts that start with something passive -/

section Passive

variable {gap t : Text}

theorem Passive.runAt (h : Passive gap) {before after : Text} {names : List Text} {units : List Nat}
    (hrun : RunAt UnitName t before names units after) :
    RunAt UnitName (gap ++ t) (gap ++ before) names units after := by
  refine ⟨by rw [hrun.text, List.append_assoc], by rw [continues_append h.whole, hrun.free], hrun.named,
    hrun.nonempty, fun earlier name unit hat => ?_, hrun.last⟩
  obtain ⟨b, rfl, hlater⟩ := h.later hat
  exact hrun.first b name unit hlater

theorem RunAt.escapeAt {part before after : Text} {names : List Text} {units : List Nat}
    (h : RunAt UnitName part before names units after) :
    ∃ name names', names = name :: names' ∧ EscapeAt part before (name ++ (escapes names' ++ after)) := by
  obtain ⟨name, names', rfl⟩ := List.exists_cons_of_ne_nil h.nonempty
  refine ⟨name, names', rfl, ?_, h.free⟩
  rw [h.text, escapes, List.flatMap_cons]
  simp [escapes]

theorem Passive.exists_runAt (h : Passive gap) {before after : Text} {names : List Text} {units : List Nat}
    (hrun : RunAt UnitName (gap ++ t) before names units after) :
    ∃ b, before = gap ++ b ∧ RunAt UnitName t b names units after := by
  obtain ⟨name, names', -, hat⟩ := hrun.escapeAt
  obtain ⟨b, rfl, hlater⟩ := h.later hat
  refine ⟨b, rfl, ?_, hlater.free, hrun.named, hrun.nonempty, fun earlier name unit hearlier => ?_, hrun.last⟩
  · have htext := hrun.text
    rw [List.append_assoc] at htext
    exact List.append_cancel_left htext
  · exact hrun.first _ name unit (hearlier.append h.whole)

/-- What is passive has no part in escaping. -/
theorem Passive.wellEscaped_append_iff (h : Passive gap) (t : Text) :
    WellEscaped UnitName (gap ++ t) ↔ WellEscaped UnitName t := by
  constructor
  · intro hwell
    exact ⟨fun before after hat => hwell.named _ after (hat.append h.whole),
      fun before names units after hrun => hwell.paired _ names units after (h.runAt hrun)⟩
  · intro hwell
    refine ⟨fun before after hat => ?_, fun before names units after hrun => ?_⟩
    · obtain ⟨b, -, hlater⟩ := h.later hat
      exact hwell.named b after hlater
    · obtain ⟨b, -, hlater⟩ := h.exists_runAt hrun
      exact hwell.paired b names units after hlater

end Passive

/-! ### Parts that start with a run -/

section Runs

variable {names names' : List Text} {units units' : List Nat} {rest rest' before after : Text}

theorem escapes_cons (name : Text) (names : List Text) :
    escapes (name :: names) = '\\' :: 'u' :: (name ++ escapes names) := List.flatMap_cons

theorem escapes_append (names names' : List Text) :
    escapes (names ++ names') = escapes names ++ escapes names' := List.flatMap_append

theorem exists_unit_of_mem (h : List.Forall₂ UnitName names units) :
    ∀ name ∈ names, ∃ unit, UnitName name unit := by
  induction h with
  | nil => simp
  | cons hname _ ih => exact List.forall_mem_cons.2 ⟨⟨_, hname⟩, ih⟩

theorem continues_escapes (h : ∀ name ∈ names, ∃ unit, UnitName name unit) :
    continues (escapes names) = false := by
  induction names with
  | nil => rfl
  | cons name names ih =>
      obtain ⟨⟨unit, hname⟩, hnames⟩ := List.forall_mem_cons.1 h
      rw [escapes_cons, continues_escape,
        continues_append (passive_of_not_mem hname.not_mem).whole, ih hnames]

/-- An escape in a part that starts with a run comes after the run, or is one of the run. -/
theorem EscapeAt.of_run (h : ∀ name ∈ names, ∃ unit, UnitName name unit)
    (hat : EscapeAt (escapes names ++ rest) before after) :
    (∃ b, before = escapes names ++ b ∧ EscapeAt rest b after) ∨
      ∃ earlier name later, names = earlier ++ name :: later ∧ before = escapes earlier ∧
        after = name ++ (escapes later ++ rest) := by
  induction names generalizing before with
  | nil => exact .inl ⟨before, rfl, hat⟩
  | cons name names ih =>
      obtain ⟨⟨unit, hname⟩, hnames⟩ := List.forall_mem_cons.1 h
      rw [escapes_cons, List.cons_append, List.cons_append, List.append_assoc] at hat
      rcases hat.of_taken with ⟨rfl, heq⟩ | ⟨b, rfl, hlater⟩
      · exact .inr ⟨[], name, names, rfl, rfl, (List.cons.inj heq).2⟩
      · obtain ⟨b, rfl, hnext⟩ := (passive_of_not_mem hname.not_mem).later hlater
        rcases ih hnames hnext with ⟨b, rfl, hrest⟩ | ⟨earlier, name', later, rfl, rfl, rfl⟩
        · exact .inl ⟨b, by rw [escapes_cons]; simp, hrest⟩
        · exact .inr ⟨name :: earlier, name', later, rfl, (escapes_cons ..).symm, rfl⟩

/-- A part starts with one run only. -/
theorem names_unique (h : ∀ name ∈ names, ∃ unit, UnitName name unit)
    (h' : ∀ name ∈ names', ∃ unit, UnitName name unit) (hrest : ¬['\\', 'u'] <+: rest)
    (hrest' : ¬['\\', 'u'] <+: rest') (heq : escapes names ++ rest = escapes names' ++ rest') :
    names = names' := by
  induction names generalizing names' with
  | nil =>
      cases names' with
      | nil => rfl
      | cons name' names' =>
          rw [escapes_cons] at heq
          exact absurd ⟨_, heq.symm⟩ hrest
  | cons name names ih =>
      cases names' with
      | nil =>
          rw [escapes_cons] at heq
          exact absurd ⟨_, heq⟩ hrest'
      | cons name' names' =>
          obtain ⟨⟨unit, hname⟩, hnames⟩ := List.forall_mem_cons.1 h
          obtain ⟨⟨unit', hname'⟩, hnames'⟩ := List.forall_mem_cons.1 h'
          simp only [escapes_cons, List.cons_append, List.append_assoc, List.cons.injEq, true_and] at heq
          obtain ⟨rfl, hlater⟩ := List.append_inj heq (hname.length_eq.trans hname'.length_eq.symm)
          rw [ih hnames hnames' hlater]

/-- A run in the rest is a run in the whole part, when the rest does not carry the first run on. -/
theorem RunAt.after_run (h : ∀ name ∈ names, ∃ unit, UnitName name unit) (hrest : ¬['\\', 'u'] <+: rest)
    (hrun : RunAt UnitName rest before names' units' after) :
    RunAt UnitName (escapes names ++ rest) (escapes names ++ before) names' units' after := by
  have hwhole := continues_escapes h
  refine ⟨by rw [hrun.text, List.append_assoc], by rw [continues_append hwhole, hrun.free], hrun.named,
    hrun.nonempty, fun earlier name unit hat hname => ?_, hrun.last⟩
  rcases hat.of_run h with ⟨b, rfl, hlater⟩ | ⟨_, name', later, rfl, -, heq⟩
  · exact hrun.first b name unit hlater hname
  · -- The escape is the last of the first run, and the second run follows it.
    obtain ⟨unit', hname'⟩ := h name' (List.mem_append_right _ List.mem_cons_self)
    have hlength := congrArg List.length heq
    rw [List.length_append, List.length_append, hname.length_eq, hname'.length_eq] at hlength
    have hbefore : before = [] := List.length_eq_zero_iff.1 (by omega)
    obtain ⟨first, more, hnames, hat'⟩ := hrun.escapeAt
    refine hrest ⟨first ++ (escapes more ++ after), ?_⟩
    rw [hat'.text, hbefore]
    rfl

/-- A run in a part that starts with one is that run, or comes after it. -/
theorem RunAt.of_run (h : ∀ name ∈ names, ∃ unit, UnitName name unit) (hrest : ¬['\\', 'u'] <+: rest)
    (hrun : RunAt UnitName (escapes names ++ rest) before names' units' after) :
    names' = names ∨ ∃ b, RunAt UnitName rest b names' units' after := by
  obtain ⟨first, more, -, hat⟩ := hrun.escapeAt
  rcases hat.of_run h with ⟨b, rfl, hlater⟩ | ⟨earlier, name, later, rfl, rfl, -⟩
  · have htext := hrun.text
    rw [List.append_assoc] at htext
    refine .inr ⟨b, List.append_cancel_left htext, hlater.free, hrun.named, hrun.nonempty,
      fun earlier name unit hearlier => ?_, hrun.last⟩
    exact hrun.first _ name unit (hearlier.append (continues_escapes h))
  · rcases List.eq_nil_or_concat earlier with rfl | ⟨earlier, last, rfl⟩
    · exact .inl (names_unique (exists_unit_of_mem hrun.named) h hrun.last hrest hrun.text.symm)
    · -- Another escape stands right before it.
      have hearlier : ∀ name ∈ earlier, ∃ unit, UnitName name unit := fun name hmem =>
        h name (by simp [hmem])
      obtain ⟨unit, hlast⟩ := h last (by simp)
      refine absurd hlast (hrun.first (escapes earlier) last unit ⟨?_, continues_escapes hearlier⟩)
      rw [List.concat_eq_append, escapes_append, escapes_cons, escapes, escapes, List.flatMap_nil,
        List.append_nil]

/-- A part that starts with a run is well escaped when the run encodes a text and the rest is well escaped. -/
theorem wellEscaped_run_iff (h : List.Forall₂ UnitName names units) (hrest : ¬['\\', 'u'] <+: rest) :
    WellEscaped UnitName (escapes names ++ rest) ↔
      (∃ s, units = Utf16.encode s) ∧ WellEscaped UnitName rest := by
  have hnames := exists_unit_of_mem h
  constructor
  · intro hwell
    refine ⟨?_, fun before after hat => hwell.named _ after (hat.append (continues_escapes hnames)),
      fun before names' units' after hrun => hwell.paired _ names' units' after (hrun.after_run hnames hrest)⟩
    cases h with
    | nil => exact ⟨[], rfl⟩
    | cons hname hmore =>
        refine hwell.paired [] _ _ rest ⟨rfl, rfl, .cons hname hmore, List.cons_ne_nil _ _, ?_, hrest⟩
        intro earlier name unit hat
        have hlength := congrArg List.length hat.text
        simp at hlength
  · rintro ⟨hunits, hwell⟩
    refine ⟨fun before after hat => ?_, fun before names' units' after hrun => ?_⟩
    · rcases hat.of_run hnames with ⟨b, -, hlater⟩ | ⟨earlier, name, later, rfl, -, rfl⟩
      · exact hwell.named b after hlater
      · obtain ⟨unit, hname⟩ := hnames name (List.mem_append_right _ List.mem_cons_self)
        exact ⟨name, unit, _, rfl, hname⟩
    · rcases hrun.of_run hnames hrest with rfl | ⟨b, hlater⟩
      · have hsame : units' = units :=
          List.right_unique_forall₂' (fun _ _ _ hname hname' => hname.unique hname') hrun.named h
        rw [hsame]
        exact hunits
      · exact hwell.paired b names' units' after hlater

end Runs

/-! ### What the reader accepts -/

section Reading

variable {names : List Text} {units : List Nat} {part : Text}

theorem decodeUnits_ok_iff (h : List.Forall₂ UnitName names units) :
    (∃ s, decodeUnits units = .ok s) ↔ ∃ s, units = Utf16.encode s := by
  have hbound : ∀ unit ∈ units, unit < 0x10000 := by
    induction h with
    | nil => simp
    | cons hname _ ih => exact List.forall_mem_cons.2 ⟨hname.lt, ih⟩
  constructor
  · rintro ⟨s, hs⟩
    exact ⟨s, Utf16.eq_encode_of_decode hbound (ok_of_mapError_eq_ok hs)⟩
  · rintro ⟨s, rfl⟩
    exact ⟨s, decodeUnits_encode s⟩

theorem wellEscaped_of_no_escape (h : ∀ before after, ¬EscapeAt part before after) :
    WellEscaped UnitName part := by
  refine ⟨fun before after hat => absurd hat (h before after), fun before names units after hrun => ?_⟩
  obtain ⟨name, names', -, hat⟩ := hrun.escapeAt
  exact absurd hat (h _ _)

/-- A text that is too short for an escape. -/
theorem wellEscaped_of_length_lt (h : part.length < 2) : WellEscaped UnitName part := by
  refine wellEscaped_of_no_escape fun before after hat => ?_
  rw [hat.text, List.length_append, List.length_cons, List.length_cons] at h
  omega

/-- A run that ends with an escape without a name is not well escaped. -/
theorem not_wellEscaped (h : List.Forall₂ UnitName names units) {after : Text}
    (hafter : ∀ name unit rest, after = name ++ rest → ¬UnitName name unit) :
    ¬WellEscaped UnitName (escapes names ++ '\\' :: 'u' :: after) := by
  intro hwell
  obtain ⟨name, unit, rest, heq, hname⟩ :=
    hwell.named _ _ ⟨rfl, continues_escapes (exists_unit_of_mem h)⟩
  exact hafter name unit rest heq hname

/-- With units that wait to be decoded, the reader accepts what it accepts after a run that names them. -/
theorem unescapeAfter_ok_iff (h : List.Forall₂ UnitName names units) (part : Text) :
    (∃ s, unescapeAfter units part = .ok s) ↔ WellEscaped UnitName (escapes names ++ part) := by
  fun_induction unescapeAfter units part generalizing names with
  | case1 units =>
      rw [wellEscaped_run_iff h (by simp), decodeUnits_ok_iff h]
      exact (and_iff_left (wellEscaped_of_length_lt (by decide))).symm
  | case2 units a b c d t unit hunit ih =>
      have hnames := List.rel_append h (.cons (unitName_of_unit? hunit) .nil)
      rw [ih hnames, escapes_append, escapes_cons]
      simp [escapes]
  | case3 units a b c d t hunit =>
      refine iff_of_false not_exists_error_eq_ok (not_wellEscaped h fun name unit rest heq hname => ?_)
      have hfour : [a, b, c, d] ++ t = name ++ rest := heq
      obtain ⟨rfl, -⟩ := List.append_inj hfour hname.length_eq.symm
      rw [unit?_of_unitName hname] at hunit
      cases hunit
  | case4 units t hshort =>
      refine iff_of_false not_exists_error_eq_ok (not_wellEscaped h fun name unit rest heq hname => ?_)
      obtain ⟨a, b, c, d, rfl⟩ := List.length_eq_four.1 hname.length_eq
      exact hshort a b c d rest heq
  | case5 units =>
      rw [wellEscaped_run_iff h (by simp), decodeUnits_ok_iff h]
      exact (and_iff_left (wellEscaped_of_length_lt (by decide))).symm
  | case6 units c t hnamed hu ih =>
      have hc : c ≠ 'u' := by
        rintro rfl
        exact hu rfl
      have hpart : WellEscaped UnitName ('\\' :: c :: t) ↔ WellEscaped UnitName t :=
        (passive_escape hc).wellEscaped_append_iff t
      rw [exists_ok_both_iff, decodeUnits_ok_iff h, ih .nil, wellEscaped_run_iff h, hpart]
      · rfl
      · simp [Ne.symm hc]
  | case7 units c t hnamed hu hlast hescape ih =>
      have hc : c ≠ '\\' := ne_backslash hlast hescape
      have hpart : WellEscaped UnitName (c :: t) ↔ WellEscaped UnitName t :=
        (passive_char hc).wellEscaped_append_iff t
      rw [exists_ok_both_iff, decodeUnits_ok_iff h, ih .nil, wellEscaped_run_iff h, hpart]
      · rfl
      · simp [Ne.symm hc]

theorem unescape_ok_iff (part : Text) : (∃ s, unescape part = .ok s) ↔ WellEscaped UnitName part :=
  unescapeAfter_ok_iff .nil part

theorem parseEntry_ok_iff (line : LogicalLine) :
    (∃ entry, parseEntry line = .ok entry) ↔ line.WellEscaped UnitName := by
  unfold parseEntry
  dsimp only
  rw [exists_ok_mapError_iff, exists_ok_both_iff, unescape_ok_iff, unescape_ok_iff]
  rfl

theorem parseEntry_error_of_broken {line : LogicalLine} (h : ¬line.WellEscaped UnitName) :
    ∃ cause, parseEntry line = .error ⟨line.number, cause⟩ := by
  rw [← parseEntry_ok_iff] at h
  unfold parseEntry at h ⊢
  dsimp only at h ⊢
  cases hentry : (do
    let key ← unescape (splitEntry line.text).1
    let value ← unescape (splitEntry line.text).2
    return (key, value) : Except EscapeError (Text × Text)) with
  | error cause => exact ⟨cause, rfl⟩
  | ok entry =>
      rw [hentry] at h
      exact absurd ⟨entry, rfl⟩ h

end Reading

/-! ### What the parser accepts -/

section Parsing

/-- Among the logical lines, those before a line are those with smaller numbers. -/
theorem firstBroken_of_split {lines : List Text} {before after : List LogicalLine} {line : LogicalLine}
    (h : logicalLines (numbered lines) = before ++ line :: after)
    (hbefore : ∀ earlier ∈ before, earlier.WellEscaped UnitName) (hline : ¬line.WellEscaped UnitName) :
    FirstBroken UnitName lines line := by
  refine ⟨mem_logicalLines_iff.1 (h ▸ List.mem_append_right _ List.mem_cons_self), hline, ?_⟩
  intro earlier hheld hnumber
  have hmem := mem_logicalLines_iff.2 hheld
  have hsorted : (logicalLines (numbered lines)).Pairwise (·.number < ·.number) := pairwise_number_lt 0 lines
  rw [h] at hmem hsorted
  have hafter := (List.pairwise_cons.1 (List.pairwise_append.1 hsorted).2.1).1
  rcases List.mem_append.1 hmem with hmem | hmem
  · exact hbefore earlier hmem
  · rcases List.mem_cons.1 hmem with rfl | hmem
    · exact absurd hnumber (Nat.lt_irrefl _)
    · exact absurd hnumber (Nat.lt_asymm (hafter earlier hmem))

theorem parse_ok_or_firstBroken (t : Text) :
    (∀ line, Holds (Text.lines t) line → line.WellEscaped UnitName) ∧ (∃ entries, parse t = .ok entries) ∨
      ∃ line cause, FirstBroken UnitName (Text.lines t) line ∧ parse t = .error ⟨line.number, cause⟩ := by
  rcases forall_or_first (LogicalLine.WellEscaped UnitName) (logicalLines (numbered (Text.lines t))) with
    hall | ⟨before, line, after, hsplit, hbefore, hline⟩
  · refine .inl ⟨fun line hline => hall line (mem_logicalLines_iff.2 hline), ?_⟩
    exact exists_ok_mapM_iff.2 fun line hline => (parseEntry_ok_iff line).2 (hall line hline)
  · obtain ⟨cause, hcause⟩ := parseEntry_error_of_broken hline
    refine .inr ⟨line, cause, firstBroken_of_split hsplit hbefore hline, ?_⟩
    rw [parse, hsplit]
    exact mapM_of_first_error (fun earlier hmem => (parseEntry_ok_iff earlier).2 (hbefore earlier hmem)) hcause

/-- A text is accepted exactly when every logical line it holds is well escaped: each escape of a unit is
followed by four hexadecimal digits, or by a plus sign and three of them, and each run of escapes encodes a
text. Otherwise the file is refused with the number of the first physical line of the first entry that is
not. -/
theorem parse_accepts_wellEscaped (t path : Text) :
    ((∃ entries, Format.properties.parse t = .ok entries) ↔
      ∀ line, Holds (Text.lines t) line → line.WellEscaped UnitName) ∧
    ((∃ entries, Format.properties.parse t = .ok entries) ∨
      ∃ line cause, FirstBroken UnitName (Text.lines t) line ∧
        (Format.properties.parse t).mapError (Error.file path) =
          .error (.file path (.properties ⟨line.number, cause⟩))) := by
  have hparse : Format.properties.parse t = (parse t).mapError .properties := rfl
  rw [hparse, exists_ok_mapError_iff]
  rcases parse_ok_or_firstBroken t with ⟨hall, hok⟩ | ⟨line, cause, hfirst, herror⟩
  · exact ⟨iff_of_true hok hall, .inl hok⟩
  · rw [herror]
    refine ⟨iff_of_false not_exists_error_eq_ok fun hall => hfirst.broken (hall line hfirst.held), .inr ?_⟩
    exact ⟨line, cause, hfirst, rfl⟩

/-- A plus sign is no hexadecimal digit, and is accepted in the place of one. -/
theorem parse_signed_escape :
    ¬∀ t, (∃ entries, Format.properties.parse t = .ok entries) ↔
      ∀ line, Holds (Text.lines t) line → line.WellEscaped HexName := by
  intro h
  have hparse : Format.properties.parse "a=\\u+041".toList = .ok [("a".toList, "A".toList)] := by decide +kernel
  have hheld : Holds (Text.lines "a=\\u+041".toList) ⟨1, "a=\\u+041".toList⟩ :=
    ⟨[], "a=\\u+041".toList, [], [], ⟨by decide, rfl, by decide, .whole (by decide)⟩, by decide⟩
  have hwell := ((h _).1 ⟨_, hparse⟩ _ hheld).2
  obtain ⟨name, unit, rest, heq, hname⟩ := hwell.named [] "+041".toList ⟨by decide, rfl⟩
  cases hname with
  | digits ha =>
      obtain ⟨rfl, -⟩ := List.cons.inj heq
      exact ha.plain.1 rfl

end Parsing

end LayeredConfig.Properties
