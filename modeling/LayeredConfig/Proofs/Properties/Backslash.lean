import LayeredConfig.Proofs.Loop
import LayeredConfig.Proofs.Properties.EmptyKey
import LayeredConfig.Proofs.Properties.Escape
import Mathlib.Algebra.Group.Nat.Even
import Mathlib.Data.List.TakeWhile

/-! No backslash is lost. Lines are continued by counting backslashes from the right; keys end, and escapes are
read, by pairing them from the left. A logical line leaves no backslash open, and it is cut where none is
open: behind the key, at the first separator or blank that no backslash takes with it, and in front of the
value, which follows blanks and one separator at most. So neither part leaves a backslash open, and when a part
is unescaped a backslash always finds a character after it. -/

namespace LayeredConfig.Properties

theorem even_trailing_iff {t : Text} : Even (trailing t) ↔ continues t = false := by
  rw [Nat.even_iff, trailing_mod_two, continues_eq_dangling]
  cases dangling t <;> simp

/-! ### The key -/

/-- A character that ends a key unless a backslash takes it. -/
def endsKey (c : Char) : Bool := isSeparator c || isBlank c

/-- Wherever a character that could end a key stands in the text, a backslash takes it. -/
def Unbroken (key : Text) : Prop :=
  ∀ before c after, key = before ++ c :: after → endsKey c = true → continues before = true

/-- A line is cut behind its key, at a character that ends it and that no backslash takes. -/
structure CutAt (line key rest : Text) : Prop where
  text : line = key ++ rest
  unbroken : Unbroken key
  reached : ∀ c ∈ rest.head?, endsKey c = true ∧ continues key = false

section Keys

variable {line key rest : Text} {c : Char}

theorem ne_backslash_of_endsKey (h : endsKey c = true) : c ≠ '\\' := by
  rintro rfl
  cases h

theorem not_blank_of_separator (h : isSeparator c = true) : isBlank c = false := by
  rw [isSeparator, Bool.or_eq_true, beq_iff_eq, beq_iff_eq] at h
  rcases h with rfl | rfl <;> rfl

theorem unbroken_nil : Unbroken [] := by
  intro before c after heq
  simp at heq

theorem unbroken_backslash : Unbroken ['\\'] := by
  intro before c after heq hends
  have hmem : c ∈ ['\\'] := heq ▸ List.mem_append_right before List.mem_cons_self
  exact absurd (List.mem_singleton.1 hmem) (ne_backslash_of_endsKey hends)

theorem Unbroken.escape (h : Unbroken key) (c : Char) : Unbroken ('\\' :: c :: key) := by
  intro before d after heq hends
  match before with
  | [] => exact absurd (List.cons.inj heq).1.symm (ne_backslash_of_endsKey hends)
  | [e] =>
      obtain ⟨rfl, -⟩ := List.cons.inj heq
      rfl
  | e :: f :: before =>
      obtain ⟨rfl, htaken⟩ := List.cons.inj heq
      rw [continues_escape]
      exact h before d after (List.cons.inj htaken).2 hends

theorem Unbroken.char (h : Unbroken key) (hc : c ≠ '\\') (hends : endsKey c = false) :
    Unbroken (c :: key) := by
  intro before d after heq hd
  cases before with
  | nil =>
      obtain ⟨rfl, -⟩ := List.cons.inj heq
      rw [hends] at hd
      cases hd
  | cons e before =>
      obtain ⟨rfl, hkey⟩ := List.cons.inj heq
      rw [continues_cons_of_ne hc]
      exact h before d after hkey hd

theorem CutAt.escape (h : CutAt line key rest) (c : Char) :
    CutAt ('\\' :: c :: line) ('\\' :: c :: key) rest := by
  refine ⟨congrArg (fun t => '\\' :: c :: t) h.text, h.unbroken.escape c, ?_⟩
  rw [continues_escape]
  exact h.reached

theorem CutAt.char (h : CutAt line key rest) (hc : c ≠ '\\') (hends : endsKey c = false) :
    CutAt (c :: line) (c :: key) rest := by
  refine ⟨congrArg (c :: ·) h.text, h.unbroken.char hc hends, ?_⟩
  rw [continues_cons_of_ne hc]
  exact h.reached

theorem cutAt_splitKey (line : Text) : CutAt line (splitKey line).1 (splitKey line).2 := by
  fun_induction splitKey line with
  | case1 => exact ⟨rfl, unbroken_nil, by simp⟩
  | case2 c t key rest hsplit ih =>
      rw [hsplit] at ih
      exact ih.escape c
  | case3 c t hescape hends =>
      refine ⟨rfl, unbroken_nil, fun d hd => ?_⟩
      cases hd
      exact ⟨hends, rfl⟩
  | case4 c t hescape hends key rest hsplit ih =>
      rw [hsplit] at ih
      by_cases hc : c = '\\'
      · subst hc
        cases t with
        | cons d t => exact absurd rfl (hescape d t rfl)
        | nil =>
            cases hsplit
            exact ⟨rfl, unbroken_backslash, by simp⟩
      · exact ih.char hc (by simpa [endsKey] using hends)

/-- Of two cuts, neither comes first. -/
theorem CutAt.length_le {key' rest' : Text} (h : CutAt line key rest) (h' : CutAt line key' rest') :
    key'.length ≤ key.length := by
  rcases List.append_eq_append_iff.1 (h.text.symm.trans h'.text) with ⟨gap, hkey, hrest⟩ | ⟨gap, hkey, -⟩
  · cases gap with
    | nil => simp [hkey]
    | cons c gap =>
        obtain ⟨hends, hfree⟩ := h.reached c (by rw [hrest]; rfl)
        rw [h'.unbroken key c gap hkey hends] at hfree
        cases hfree
  · simp [hkey]

theorem splitKey_eq_iff : splitKey line = (key, rest) ↔ CutAt line key rest := by
  have hcut := cutAt_splitKey line
  constructor
  · intro h
    rwa [h] at hcut
  · intro h
    have hlength := Nat.le_antisymm (h.length_le hcut) (hcut.length_le h)
    obtain ⟨hkey, hrest⟩ := List.append_inj (hcut.text.symm.trans h.text) hlength
    exact Prod.ext hkey hrest

end Keys

/-! ### The value -/

/-- What stands between a key and its value. -/
structure Gap where
  before : Text
  separator : Option Char
  after : Text
  blank_before : ∀ c ∈ before, isBlank c = true
  separates : ∀ c ∈ separator, isSeparator c = true
  blank_after : ∀ c ∈ after, isBlank c = true
  /-- Without a separator there is only one run of blanks. -/
  after_separator : separator = none → after = []

def Gap.text (gap : Gap) : Text := gap.before ++ (gap.separator.toList ++ gap.after)

/-- A line is a key, a gap and a value. -/
structure Division (line key : Text) (gap : Gap) (value : Text) : Prop where
  text : line = key ++ (gap.text ++ value)
  unbroken : Unbroken key
  /-- Where there is a gap, no backslash takes its first character. -/
  free : gap.text ≠ [] → continues key = false
  /-- The gap takes all blanks, and the first separator when there is one. -/
  value_head : ∀ c ∈ value.head?, isBlank c = false ∧ (gap.separator = none → isSeparator c = false)
  ended : gap.text = [] → value = []

section Values

variable {line key rest value : Text} {gap : Gap}

theorem Gap.endsKey_of_mem {c : Char} (h : c ∈ gap.text) : endsKey c = true := by
  rw [endsKey, Bool.or_eq_true]
  rcases List.mem_append.1 h with hbefore | hlater
  · exact .inr (gap.blank_before c hbefore)
  · rcases List.mem_append.1 hlater with hseparator | hafter
    · exact .inl (gap.separates c (Option.mem_toList.1 hseparator))
    · exact .inr (gap.blank_after c hafter)

theorem Gap.separator_eq_none (h : gap.text = []) : gap.separator = none := by
  rw [Gap.text, List.append_eq_nil_iff, List.append_eq_nil_iff, Option.toList_eq_nil_iff] at h
  exact h.2.1

theorem Gap.continues_text (gap : Gap) : continues gap.text = false := by
  refine (passive_of_not_mem fun hmem => ?_).whole
  exact ne_backslash_of_endsKey (Gap.endsKey_of_mem hmem) rfl

theorem valuePart_of_nil (h : trimStart rest = []) : valuePart rest = [] := by
  rw [valuePart, h]

theorem valuePart_of_separator {c : Char} {t : Text} (h : trimStart rest = c :: t) (hc : isSeparator c = true) :
    valuePart rest = trimStart t := by
  rw [valuePart, h]
  dsimp only
  rw [if_pos hc]

theorem valuePart_of_head {c : Char} {t : Text} (h : trimStart rest = c :: t) (hc : isSeparator c = false) :
    valuePart rest = c :: t := by
  have hblank : isBlank c = false := head_trimStart rest c (by rw [h]; rfl)
  rw [valuePart, h]
  dsimp only
  rw [hc, if_neg Bool.false_ne_true, trimStart_cons_of_not_blank hblank]

/-- The blanks that are passed over at the start of a text. -/
theorem takeWhile_append_trimStart (t : Text) : t.takeWhile isBlank ++ trimStart t = t :=
  List.takeWhile_append_dropWhile

/-- Blanks alone. -/
def Gap.blanks (t : Text) : Gap where
  before := t.takeWhile isBlank
  separator := none
  after := []
  blank_before _ hc := List.mem_takeWhile_imp hc
  separates := by simp
  blank_after := by simp
  after_separator _ := rfl

/-- A separator between blanks. -/
def Gap.around (t : Text) (c : Char) (hc : isSeparator c = true) (u : Text) : Gap where
  before := t.takeWhile isBlank
  separator := some c
  after := u.takeWhile isBlank
  blank_before _ hc := List.mem_takeWhile_imp hc
  separates := by simpa using hc
  blank_after _ hc := List.mem_takeWhile_imp hc
  after_separator := by simp

theorem Gap.text_blanks (t : Text) : (Gap.blanks t).text = t.takeWhile isBlank := List.append_nil _

theorem Gap.text_around (t : Text) (c : Char) (hc : isSeparator c = true) (u : Text) :
    (Gap.around t c hc u).text = t.takeWhile isBlank ++ c :: u.takeWhile isBlank := rfl

/-- What is passed over between a key and its value is a gap. -/
theorem exists_gap (rest : Text) : ∃ gap : Gap, rest = gap.text ++ valuePart rest ∧
    ∀ c ∈ (valuePart rest).head?, isBlank c = false ∧ (gap.separator = none → isSeparator c = false) := by
  have hrest := (takeWhile_append_trimStart rest).symm
  have hhead := head_trimStart rest
  cases hstart : trimStart rest with
  | nil =>
      rw [hstart] at hrest
      rw [valuePart_of_nil hstart]
      exact ⟨.blanks rest, by rw [Gap.text_blanks]; exact hrest, by simp⟩
  | cons c t =>
      rw [hstart] at hrest hhead
      cases hc : isSeparator c with
      | true =>
          rw [valuePart_of_separator hstart hc]
          refine ⟨.around rest c hc t, ?_, fun d hd => ⟨head_trimStart t d hd, by simp [Gap.around]⟩⟩
          rw [Gap.text_around, List.append_assoc, List.cons_append, takeWhile_append_trimStart]
          exact hrest
      | false =>
          rw [valuePart_of_head hstart hc]
          refine ⟨.blanks rest, by rw [Gap.text_blanks]; exact hrest, fun d hd => ?_⟩
          cases hd
          exact ⟨hhead c rfl, fun _ => hc⟩

theorem Division.valuePart_eq {key : Text} (h : Division line key gap value) :
    valuePart (gap.text ++ value) = value := by
  have hvalue : trimStart value = value := trimStart_eq_self_iff.2 fun c hc => (h.value_head c hc).1
  have hstart : trimStart (gap.text ++ value) = trimStart (gap.separator.toList ++ (gap.after ++ value)) := by
    rw [Gap.text, List.append_assoc, trimStart_append_of_blanks gap.blank_before, List.append_assoc]
  cases hseparator : gap.separator with
  | none =>
      rw [hseparator, gap.after_separator hseparator, Option.toList_none, List.nil_append, List.nil_append,
        hvalue] at hstart
      cases value with
      | nil => exact valuePart_of_nil hstart
      | cons c value => exact valuePart_of_head hstart ((h.value_head c rfl).2 hseparator)
  | some c =>
      have hc : isSeparator c = true := gap.separates c hseparator
      rw [hseparator, Option.toList_some, List.singleton_append,
        trimStart_cons_of_not_blank (not_blank_of_separator hc)] at hstart
      rw [valuePart_of_separator hstart hc, trimStart_append_of_blanks gap.blank_after, hvalue]

theorem Division.cutAt {key : Text} (h : Division line key gap value) :
    CutAt line key (gap.text ++ value) := by
  refine ⟨h.text, h.unbroken, fun c hc => ?_⟩
  by_cases hgap : gap.text = []
  · rw [hgap, h.ended hgap] at hc
    cases hc
  · rw [List.head?_append_of_ne_nil _ hgap] at hc
    exact ⟨Gap.endsKey_of_mem (List.mem_of_mem_head? hc), h.free hgap⟩

/-- A line is divided in one way. -/
theorem splitEntry_eq_iff {key : Text} :
    splitEntry line = (key, value) ↔ ∃ gap, Division line key gap value := by
  constructor
  · intro h
    have hcut := cutAt_splitKey line
    obtain ⟨gap, hrest, hhead⟩ := exists_gap (splitKey line).2
    obtain ⟨rfl, rfl⟩ := Prod.mk.inj h
    refine ⟨gap, by rw [← hrest]; exact hcut.text, hcut.unbroken, fun hgap => ?_, hhead, fun hgap => ?_⟩
    · obtain ⟨c, blanks, hc⟩ := List.exists_cons_of_ne_nil hgap
      exact (hcut.reached c (by rw [hrest, hc]; rfl)).2
    · cases hvalue : valuePart (splitKey line).2 with
      | nil => rfl
      | cons c value =>
          rw [hvalue] at hrest hhead
          rw [hgap] at hrest
          have hends := (hcut.reached c (by rw [hrest]; rfl)).1
          obtain ⟨hblank, hnone⟩ := hhead c rfl
          rw [endsKey, hblank, hnone (Gap.separator_eq_none hgap)] at hends
          cases hends
  · rintro ⟨gap, h⟩
    have hkey := splitKey_eq_iff.2 h.cutAt
    rw [splitEntry, hkey]
    exact Prod.ext rfl h.valuePart_eq

theorem Division.continues_key {key : Text} (h : Division line key gap value) (hwhole : continues line = false) :
    continues key = false := by
  by_cases hgap : gap.text = []
  · rwa [h.text, hgap, h.ended hgap, List.append_nil, List.append_nil] at hwhole
  · exact h.free hgap

theorem Division.continues_value {key : Text} (h : Division line key gap value)
    (hwhole : continues line = false) : continues value = false := by
  have hkey := h.continues_key hwhole
  rwa [h.text, continues_append hkey, continues_append gap.continues_text] at hwhole

end Values

/-! ### Escapes -/

/-- How far a part has been unescaped: the units that wait to be decoded, what has been written, and what is
ahead. -/
structure Unescaping where
  units : List Nat
  written : Text
  ahead : Text

namespace Unescaping

def start (part : Text) : Unescaping := ⟨[], [], part⟩

/-- Writes a character after those that wait. -/
def put (units : List Nat) (written : Text) (c : Char) (rest : Text) :
    Turn Unescaping (Except EscapeError Text) :=
  match decodeUnits units with
  | .ok before => .on ⟨[], written ++ (before ++ [c]), rest⟩
  | .error error => .done (.error error)

/-- One turn of the loop that unescapes a part. A backslash with nothing after it is passed over. -/
def turn : Unescaping → Turn Unescaping (Except EscapeError Text)
  | ⟨units, written, []⟩ => .done ((decodeUnits units).map (written ++ ·))
  | ⟨units, written, '\\' :: 'u' :: a :: b :: c :: d :: rest⟩ =>
    match unit? [a, b, c, d] with
    | some unit => .on ⟨units ++ [unit], written, rest⟩
    | none => .done (.error (.notHexadecimal [a, b, c, d]))
  | ⟨_, _, '\\' :: 'u' :: _⟩ => .done (.error .truncated)
  | ⟨units, written, ['\\']⟩ => .on ⟨units, written, []⟩
  | ⟨units, written, '\\' :: c :: rest⟩ => put units written (escaped c) rest
  | ⟨units, written, c :: rest⟩ => put units written c rest

section Turns

variable {state next : Unescaping} {result : Except EscapeError Text}

theorem ends_put_iff {units : List Nat} {written rest : Text} {c : Char}
    (hturn : turn state = put units written c rest)
    (ih : ∀ written, Ends turn ⟨[], written, rest⟩ result ↔
      result = (unescapeAfter [] rest).map (written ++ ·)) :
    Ends turn state result ↔
      result = (do
        let before ← decodeUnits units
        let after ← unescapeAfter [] rest
        return before ++ c :: after : Except EscapeError Text).map (written ++ ·) := by
  rw [put] at hturn
  cases hunits : decodeUnits units with
  | error error =>
      rw [hunits] at hturn
      exact ends_iff_of_done hturn
  | ok before =>
      rw [hunits] at hturn
      rw [ends_iff_of_on hturn, ih]
      cases unescapeAfter [] rest with
      | error error => rfl
      | ok after => simp [Except.map, bind, Except.bind, pure, Except.pure]

/-- The loop does what unescaping does. -/
theorem ends_turn_iff (units : List Nat) (written part : Text) :
    Ends turn ⟨units, written, part⟩ result ↔
      result = (unescapeAfter units part).map (written ++ ·) := by
  fun_induction unescapeAfter units part generalizing written with
  | case1 units => exact ends_iff_of_done rfl
  | case2 units a b c d rest unit hunit ih =>
      have hturn : turn ⟨units, written, '\\' :: 'u' :: a :: b :: c :: d :: rest⟩ =
          .on ⟨units ++ [unit], written, rest⟩ := by
        rw [turn, hunit]
      rw [ends_iff_of_on hturn, ih]
  | case3 units a b c d rest hunit =>
      refine ends_iff_of_done ?_
      rw [turn, hunit]
      rfl
  | case4 units rest hrest =>
      refine ends_iff_of_done ?_
      rw [turn]
      · rfl
      · exact hrest
  | case5 units =>
      have hturn : turn ⟨units, written, ['\\']⟩ = .on ⟨units, written, []⟩ := rfl
      rw [ends_iff_of_on hturn]
      exact ends_iff_of_done rfl
  | case6 units c rest hrest hu ih =>
      refine ends_put_iff ?_ ih
      rw [turn]
      · exact hrest
      · exact hu
  | case7 units c rest hunit hu hlast hescape ih =>
      refine ends_put_iff ?_ ih
      rw [turn]
      · exact hunit
      · exact hu
      · exact hlast
      · exact hescape

theorem ahead_of_put {units : List Nat} {written rest : Text} {c : Char}
    (h : put units written c rest = .on next) : next.ahead = rest := by
  unfold put at h
  split at h <;> cases h
  rfl

/-- Every turn takes whole escapes: no digit of a unit is a backslash. -/
theorem continues_ahead_of_turn (h : continues state.ahead = false) (hturn : turn state = .on next) :
    continues next.ahead = false := by
  unfold turn at hturn
  split at hturn
  · cases hturn
  · rename_i units written a b c d rest
    split at hturn <;> cases hturn
    rename_i unit hunit
    have hdigits := (passive_of_not_mem (unitName_of_unit? hunit).not_mem).whole
    rw [continues_escape] at h
    exact (continues_append hdigits rest).symm.trans h
  · cases hturn
  · cases hturn
    rfl
  · rw [ahead_of_put hturn]
    rwa [continues_escape] at h
  · rename_i c rest _ _ hlast hescape
    rw [ahead_of_put hturn]
    rwa [continues_cons_of_ne (ne_backslash hlast hescape)] at h

/-- Where no backslash is open, the loop never comes to one with nothing after it. -/
theorem ahead_ne_backslash {part : Text} (hwhole : continues part = false)
    (h : Visits turn (start part) state) : state.ahead ≠ ['\\'] := by
  have hahead : continues state.ahead = false := h.keeps (fun _ _ => continues_ahead_of_turn) hwhole
  intro heq
  rw [heq] at hahead
  cases hahead

end Turns

end Unescaping

/-- The parts of a logical line leave no backslash open. Each ends in an even number of backslashes, and while it
is unescaped, no backslash is ever met with nothing after it. Any line is divided in one way, into a key, blanks,
at most one separator, blanks, and a value. -/
theorem no_backslash_dropped (t : Text) :
    (∀ line ∈ logicalLines (numbered (Text.lines t)),
      ∀ part ∈ [(splitEntry line.text).1, (splitEntry line.text).2],
        Even (trailing part) ∧
        (∀ result, Ends Unescaping.turn (.start part) result ↔ result = unescape part) ∧
        ∀ state, Visits Unescaping.turn (.start part) state → state.ahead ≠ ['\\']) ∧
    ∀ line key value, splitEntry line = (key, value) ↔ ∃ gap, Division line key gap value := by
  refine ⟨fun line hmem part hpart => ?_, fun line key value => splitEntry_eq_iff⟩
  have hwhole := (mem_logicalLines_iff.1 hmem).continues_text
  obtain ⟨gap, hdivision⟩ := splitEntry_eq_iff.1 (Prod.eta (splitEntry line.text)).symm
  have hclosed : continues part = false := by
    rcases List.mem_pair.1 hpart with rfl | rfl
    · exact hdivision.continues_key hwhole
    · exact hdivision.continues_value hwhole
  refine ⟨even_trailing_iff.2 hclosed, fun result => ?_, fun state => Unescaping.ahead_ne_backslash hclosed⟩
  rw [Unescaping.start, Unescaping.ends_turn_iff]
  cases hread : unescapeAfter [] part with
  | error error => rw [unescape, hread]; rfl
  | ok s => rw [unescape, hread]; rfl

/-- A text that ends where a line is still continued. -/
example : (logicalLines (numbered (Text.lines "a\\\n \\=b : \\\\\\".toList))).map (splitEntry ·.text) =
    [("a\\=b".toList, "\\\\".toList)] := by
  decide +kernel

end LayeredConfig.Properties
