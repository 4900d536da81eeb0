import LayeredConfig.Proofs.OrderedMap
import LayeredConfig.Proofs.Placeholder.Sourced

/-! What the answers of the fallback source can do. Where no placeholder stands in a key, the keys that are
sought are written out in the texts, so the answers do not decide which they are. Two fallback sources
that supply the same keys then lead to the same searches, and to texts that differ in the answers only: one
template describes them all, with a gap for each answer. The proof runs a resolution once for all these
sources, on outlines of the memory in which templates stand for the values. -/

namespace LayeredConfig.Placeholder

/-! ### Texts without computed keys -/

/-- No placeholder of the text, at any depth, has a placeholder in its key: what nests, nests in
defaults. -/
inductive LiteralKeys : Text → Prop where
  | intro (layout : Layout) (hkeys : ∀ body ∈ layout.bodies, firstPlaceholder (splitDefault body).1 = none)
      (hdefaults : ∀ body ∈ layout.bodies, LiteralKeys (defaultOf body)) : LiteralKeys layout.text

section LiteralKeys

variable {raw before body rest : Text}

theorem literalKeys_of_none (h : firstPlaceholder raw = none) : LiteralKeys raw := by
  obtain ⟨ending, rfl⟩ := exists_ending h
  exact .intro ⟨[], ending⟩ (List.forall_mem_nil _) (List.forall_mem_nil _)

theorem literalKeys_iff (h : firstPlaceholder raw = some (before, body, rest)) : LiteralKeys raw ↔
    firstPlaceholder (splitDefault body).1 = none ∧ LiteralKeys (defaultOf body) ∧ LiteralKeys rest := by
  obtain ⟨segment, rfl, rfl, rfl⟩ := exists_segment h
  constructor
  · generalize htext : segment.text ++ rest = text
    rintro ⟨⟨segments, ending⟩, hkeys, hdefaults⟩
    obtain ⟨⟨others, ending'⟩, rfl⟩ := Layout.exists_of_text rest
    rw [← Layout.text_cons] at htext
    cases Layout.text_injective htext
    obtain ⟨hkey, hkeys⟩ := List.forall_mem_cons.1 hkeys
    obtain ⟨hdefault, hdefaults⟩ := List.forall_mem_cons.1 hdefaults
    exact ⟨hkey, hdefault, .intro ⟨others, ending⟩ hkeys hdefaults⟩
  · rintro ⟨hkey, hdefault, ⟨⟨segments, ending⟩, hkeys, hdefaults⟩⟩
    rw [← Layout.text_cons]
    exact .intro ⟨segment :: segments, ending⟩ (List.forall_mem_cons.2 ⟨hkey, hkeys⟩)
      (List.forall_mem_cons.2 ⟨hdefault, hdefaults⟩)

theorem firstPlaceholder_of_unopened (h : splitOpen raw = none) : firstPlaceholder raw = none := by
  rw [firstPlaceholder, h]

/-- A placeholder in which nothing nests. -/
theorem literalKeys_of_unnested (h : firstPlaceholder raw = some (before, body, rest))
    (hbody : splitOpen body = none) (hrest : LiteralKeys rest) : LiteralKeys raw := by
  have hpart : ∀ part, part <:+: body → firstPlaceholder part = none := fun part hwithin =>
    firstPlaceholder_of_unopened (splitOpen_eq_none_iff.2 fun hopening =>
      splitOpen_eq_none_iff.1 hbody (hopening.trans hwithin))
  have hdefault : LiteralKeys (defaultOf body) := by
    rw [defaultOf]
    cases hsplit : (splitDefault body).2 with
    | none => exact literalKeys_of_none rfl
    | some default => exact literalKeys_of_none (hpart default (default_within hsplit))
  exact (literalKeys_iff h).2 ⟨hpart _ (key_within body), hdefault, hrest⟩

end LiteralKeys

/-! ### Templates -/

/-- A part of a resolved text. -/
inductive Part where
  | fixed (t : Text)
  /-- The answer of the fallback source to a key. -/
  | supplied (key : Text)

/-- A resolved text with gaps for the answers of the fallback source. -/
abbrev Template := List Part

def Part.fill (fallback : Fallback) : Part → Text
  | .fixed t => t
  | .supplied key => (fallback key).getD []

/-- Puts the answers into the gaps as they are. -/
def Template.fill (fallback : Fallback) (template : Template) : Text :=
  template.flatMap (Part.fill fallback)

theorem Template.fill_append (fallback : Fallback) (left right : Template) :
    Template.fill fallback (left ++ right) = Template.fill fallback left ++ Template.fill fallback right :=
  List.flatMap_append

theorem Template.fill_fixed (fallback : Fallback) (t : Text) : Template.fill fallback [.fixed t] = t :=
  List.flatMap_singleton _ _

/-- A memory with templates in the place of values. -/
structure Outline where
  settled : List (Text × Template) := []
  provisional : List (Text × Template) := []
  searches : List (Text × List Text) := []

namespace Outline

def asked (outline : Outline) (key : Text) (chain : List Text) : Outline :=
  { outline with searches := (key, chain) :: outline.searches }

def keep (outline : Outline) (key : Text) (value : Template) (cut : Bool) : Outline :=
  if cut then { outline with provisional := (key, value) :: outline.provisional }
  else { outline with settled := (key, value) :: outline.settled }

end Outline

/-- The memory is the outline with the answers of the fallback source in its gaps. -/
structure Memo.Fits (fallback : Fallback) (outline : Outline) (memo : Memo) : Prop where
  settled : memo.settled = outline.settled.map fun entry => (entry.1, entry.2.fill fallback)
  provisional : memo.provisional = outline.provisional.map fun entry => (entry.1, entry.2.fill fallback)
  searches : memo.searches = outline.searches

section Fits

variable {fallback : Fallback} {outline : Outline} {memo : Memo} {key : Text} {chain : List Text}

theorem Memo.Fits.settled_lookup (h : memo.Fits fallback outline) (key : Text) :
    memo.settled.lookup key = (outline.settled.lookup key).map (Template.fill fallback) := by
  rw [h.settled]
  exact OrderedMap.lookup_map (fun _ template => Template.fill fallback template) _ _

theorem Memo.Fits.provisional_lookup (h : memo.Fits fallback outline) (key : Text) :
    memo.provisional.lookup key = (outline.provisional.lookup key).map (Template.fill fallback) := by
  rw [h.provisional]
  exact OrderedMap.lookup_map (fun _ template => Template.fill fallback template) _ _

theorem Memo.Fits.forgotten (h : memo.Fits fallback outline) (hsettled : outline.settled.lookup key = none)
    (hprovisional : outline.provisional.lookup key = none) :
    memo.settled.lookup key = none ∧ memo.provisional.lookup key = none := by
  rw [h.settled_lookup, h.provisional_lookup, hsettled, hprovisional]
  exact ⟨rfl, rfl⟩

theorem Memo.Fits.asked (h : memo.Fits fallback outline) (key : Text) (chain : List Text) :
    (memo.record (.asked key chain)).Fits fallback (outline.asked key chain) :=
  ⟨h.settled, h.provisional, by rw [Memo.searches_asked, h.searches]; rfl⟩

theorem Memo.Fits.expanded (h : memo.Fits fallback outline) (key : Text) :
    (memo.record (.expanded key)).Fits fallback outline :=
  ⟨h.settled, h.provisional, h.searches⟩

theorem Memo.Fits.answered (h : memo.Fits fallback outline) (key : Text) (chain : List Text)
    (value : Option Text) : (memo.record (.answered key chain value)).Fits fallback outline :=
  ⟨h.settled, h.provisional, h.searches⟩

theorem Memo.Fits.keep (h : memo.Fits fallback outline) (key : Text) (value : Template) (cut : Bool) :
    (memo.keep key (value.fill fallback) cut).Fits fallback (outline.keep key value cut) := by
  cases cut with
  | false => exact ⟨by simp [Outline.keep, h.settled], h.provisional, h.searches⟩
  | true => exact ⟨h.settled, by simp [Outline.keep, h.provisional], h.searches⟩

end Fits

/-! ### Resolution of outlines -/

/-- An outcome up to the answers of the fallback source. -/
structure Draft (β : Type) where
  value : β
  cut : Bool
  outline : Outline

/-- The outcome is the draft with the answers of the fallback source in its gaps. -/
structure Realizes (fallback : Fallback) {α β : Type} (fill : β → α) (draft : Draft β)
    (outcome : Outcome α) : Prop where
  value : outcome.value = fill draft.value
  cut : outcome.cut = draft.cut
  memo : outcome.memo.Fits fallback draft.outline

/-- The fallback source answers the keys for which `supplied` holds, and no other. -/
def Supplies (supplied : Text → Bool) (fallback : Fallback) : Prop :=
  ∀ key, (fallback key).isSome = supplied key

/-! From every outline of the memory, one draft serves all fallback sources that supply the same keys. -/

def DraftsText (supplied : Text → Bool) (map : OrderedMap Text) (chain : List Text) (raw : Text) : Prop :=
  ∀ outline, ∃ draft : Draft Template, ∀ fallback, Supplies supplied fallback →
    ∀ memo : Memo, memo.Fits fallback outline →
      Realizes fallback (Template.fill fallback) draft (expand ⟨map, fallback⟩ chain raw memo)

def DraftsBody (supplied : Text → Bool) (map : OrderedMap Text) (chain : List Text) (body : Text) : Prop :=
  ∀ outline, ∃ draft : Draft Template, ∀ fallback, Supplies supplied fallback →
    ∀ memo : Memo, memo.Fits fallback outline →
      Realizes fallback (Template.fill fallback) draft (evaluate ⟨map, fallback⟩ chain body memo)

def DraftsKey (supplied : Text → Bool) (map : OrderedMap Text) (chain : List Text) (key : Text) : Prop :=
  ∀ outline, ∃ draft : Draft (Option Template), ∀ fallback, Supplies supplied fallback →
    ∀ memo : Memo, memo.Fits fallback outline →
      Realizes fallback (Option.map (Template.fill fallback)) draft (find ⟨map, fallback⟩ chain key memo)

section Drafts

variable {supplied : Text → Bool} {map : OrderedMap Text} {chain : List Text}
  {raw before body rest key : Text}

theorem drafts_plain (hfirst : firstPlaceholder raw = none) : DraftsText supplied map chain raw := by
  intro outline
  refine ⟨⟨[.fixed raw], false, outline⟩, fun fallback _ memo hmemo => ?_⟩
  rw [expand_of_none hfirst]
  exact ⟨(Template.fill_fixed fallback raw).symm, rfl, hmemo⟩

theorem drafts_placeholder (hfirst : firstPlaceholder raw = some (before, body, rest))
    (hbody : DraftsBody supplied map chain body) (hrest : DraftsText supplied map chain rest) :
    DraftsText supplied map chain raw := by
  intro outline
  obtain ⟨here, hhere⟩ := hbody outline
  obtain ⟨there, hthere⟩ := hrest here.outline
  refine ⟨⟨.fixed before :: here.value ++ there.value, here.cut || there.cut, there.outline⟩, ?_⟩
  intro fallback hsupplies memo hmemo
  have hhere := hhere fallback hsupplies memo hmemo
  have hthere := hthere fallback hsupplies _ hhere.memo
  rw [expand_of_some hfirst]
  refine ⟨?_, ?_, hthere.memo⟩
  · simp only [hhere.value, hthere.value]
    rw [List.cons_append, ← List.singleton_append, Template.fill_append, Template.fill_append,
      Template.fill_fixed, List.append_assoc]
  · simp only [hhere.cut, hthere.cut]

/-- The key of the body is written out; whether it is found is the same for all sources, and so is
whether the default is needed. -/
theorem drafts_body (hkey : firstPlaceholder (splitDefault body).1 = none)
    (hfind : ∀ key, DraftsKey supplied map chain key)
    (hdefault : DraftsText supplied map chain (defaultOf body)) : DraftsBody supplied map chain body := by
  intro outline
  obtain ⟨found, hfound⟩ := hfind (Text.trim (splitDefault body).1) outline
  obtain ⟨other, hother⟩ := hdefault found.outline
  have hwritten : ∀ (fallback : Fallback) (memo : Memo),
      expand ⟨map, fallback⟩ chain (splitDefault body).1 memo = ⟨(splitDefault body).1, false, memo⟩ :=
    fun _ _ => expand_of_none hkey
  cases hvalue : found.value with
  | some template =>
      refine ⟨⟨template, found.cut, found.outline⟩, fun fallback hsupplies memo hmemo => ?_⟩
      have hfound := hfound fallback hsupplies memo hmemo
      have hsome : (find ⟨map, fallback⟩ chain (Text.trim (splitDefault body).1) memo).value =
          some (template.fill fallback) := by rw [hfound.value, hvalue, Option.map_some]
      rw [evaluate_of_some (by rw [hwritten]; exact hsome), hwritten]
      exact ⟨rfl, hfound.cut, hfound.memo⟩
  | none =>
      refine ⟨⟨other.value, found.cut || other.cut, other.outline⟩, fun fallback hsupplies memo hmemo => ?_⟩
      have hfound := hfound fallback hsupplies memo hmemo
      have hother := hother fallback hsupplies _ hfound.memo
      have hnone : (find ⟨map, fallback⟩ chain (Text.trim (splitDefault body).1) memo).value = none := by
        rw [hfound.value, hvalue, Option.map_none]
      rw [evaluate_of_none (by rw [hwritten]; exact hnone), hwritten]
      refine ⟨hother.value, ?_, hother.memo⟩
      simp only [hfound.cut, hother.cut, Bool.false_or]

/-- The answer to a key, as a template. -/
def answerTemplate (supplied : Text → Bool) (key : Text) : Option Template :=
  if supplied key then some [.supplied key] else none

theorem fallback_eq_answerTemplate {fallback : Fallback} (h : Supplies supplied fallback) (key : Text) :
    fallback key = (answerTemplate supplied key).map (Template.fill fallback) := by
  have hkey := h key
  unfold answerTemplate
  cases hanswer : fallback key with
  | none => simp_all
  | some value =>
      have hfill : Template.fill fallback [.supplied key] = value := by
        simp [Template.fill, Part.fill, hanswer]
      simp_all

theorem drafts_key
    (ih : ∀ raw, key ∉ chain → map.get? key = some raw → DraftsText supplied map (key :: chain) raw) :
    DraftsKey supplied map chain key := by
  intro outline
  -- what the outline remembers of the key decides the search for every memory that fits it
  cases search_cases chain key (outline.settled.lookup key) (outline.provisional.lookup key)
      (map.get? key) with
  | blank hkey =>
      subst hkey
      refine ⟨⟨none, false, outline.asked [] chain⟩, fun fallback _ memo hmemo => ?_⟩
      rw [find_nil]
      exact ⟨rfl, rfl, (hmemo.asked [] chain).answered _ _ _⟩
  | onChain hkey hchain =>
      refine ⟨⟨answerTemplate supplied key, true, outline.asked key chain⟩,
        fun fallback hsupplies memo hmemo => ?_⟩
      rw [find_of_mem hkey hchain]
      exact ⟨fallback_eq_answerTemplate hsupplies key, rfl, (hmemo.asked key chain).answered _ _ _⟩
  | @settled template hkey hchain hsettled =>
      refine ⟨⟨some template, false, outline.asked key chain⟩, fun fallback _ memo hmemo => ?_⟩
      have hmemory := hmemo.settled_lookup key
      rw [hsettled, Option.map_some] at hmemory
      rw [find_of_settled hkey hchain hmemory]
      exact ⟨rfl, rfl, (hmemo.asked key chain).answered _ _ _⟩
  | @provisional template hkey hchain hsettled hprovisional =>
      refine ⟨⟨some template, true, outline.asked key chain⟩, fun fallback _ memo hmemo => ?_⟩
      have hmemory := hmemo.settled_lookup key
      have hmemory' := hmemo.provisional_lookup key
      rw [hsettled, Option.map_none] at hmemory
      rw [hprovisional, Option.map_some] at hmemory'
      rw [find_of_provisional hkey hchain hmemory hmemory']
      exact ⟨rfl, rfl, (hmemo.asked key chain).answered _ _ _⟩
  | absent hkey hchain hsettled hprovisional hheld =>
      refine ⟨⟨answerTemplate supplied key, false, outline.asked key chain⟩,
        fun fallback hsupplies memo hmemo => ?_⟩
      obtain ⟨hmemory, hmemory'⟩ := hmemo.forgotten hsettled hprovisional
      rw [find_of_absent hkey hchain hmemory hmemory' hheld]
      exact ⟨fallback_eq_answerTemplate hsupplies key, rfl, (hmemo.asked key chain).answered _ _ _⟩
  | @held raw hkey hchain hsettled hprovisional hheld =>
      obtain ⟨held, hraw⟩ := ih raw hchain hheld (outline.asked key chain)
      refine ⟨⟨some held.value, held.cut, held.outline.keep key held.value held.cut⟩,
        fun fallback hsupplies memo hmemo => ?_⟩
      obtain ⟨hmemory, hmemory'⟩ := hmemo.forgotten hsettled hprovisional
      have hraw := hraw fallback hsupplies _ ((hmemo.asked key chain).expanded key)
      rw [find_of_held hkey hchain hmemory hmemory' hheld]
      dsimp only
      rw [hraw.value, hraw.cut]
      exact ⟨rfl, rfl, (hraw.memo.keep key held.value held.cut).answered _ _ _⟩

end Drafts

theorem drafts {map : OrderedMap Text} (supplied : Text → Bool)
    (hmap : ∀ key text, map.get? key = some text → LiteralKeys text) :
    (∀ chain raw, LiteralKeys raw → DraftsText supplied map chain raw) ∧
    (∀ chain body, firstPlaceholder (splitDefault body).1 = none → LiteralKeys (defaultOf body) →
      DraftsBody supplied map chain body) ∧
    (∀ chain key, DraftsKey supplied map chain key) := by
  refine resolution_induction ⟨map, .silent⟩ ?plain ?placeholder ?body ?key
  case plain => exact fun _ _ hfirst _ => drafts_plain hfirst
  case placeholder =>
    intro chain raw before body rest hfirst hbody hrest hraw
    obtain ⟨hkey, hdefault, hliteral⟩ := (literalKeys_iff hfirst).1 hraw
    exact drafts_placeholder hfirst (hbody hkey hdefault) (hrest hliteral)
  case body => exact fun _ _ _ hfind hdefault hkey hliteral => drafts_body hkey hfind (hdefault hliteral)
  case key =>
    intro chain key ih
    exact drafts_key fun raw hchain hheld => ih raw hchain hheld (hmap key raw hheld)

/-- Let no placeholder stand in a key, in the text or in the map. Then all fallback sources that supply the
same keys lead to the same searches, and one template gives the resolved text with the answers of any of
them put in as they are. Only parts of the text and of the map are scanned. -/
theorem resolve_fills_template (map : OrderedMap Text) (raw : Text) (fallback : Fallback)
    (hraw : LiteralKeys raw) (hmap : ∀ key text, map.get? key = some text → LiteralKeys text) :
    ∃ template : Template, ∀ other : Fallback, (∀ key, (other key).isSome = (fallback key).isSome) →
      (Evaluator.resolve { scope := ⟨map, other⟩ } raw).2.memo.searches =
        (Evaluator.resolve { scope := ⟨map, fallback⟩ } raw).2.memo.searches ∧
      (Evaluator.resolve { scope := ⟨map, other⟩ } raw).1 = template.fill other ∧
      ∀ n machine, Machine.run ⟨map, other⟩ n
          (Machine.start { scope := ⟨map, other⟩ } (.resolve raw)) = some machine →
        machine.AllSourced map raw := by
  obtain ⟨draft, hdraft⟩ := (drafts (fun key => (fallback key).isSome) hmap).1 [] raw hraw {}
  have hfresh : ∀ source : Fallback, (Memo.renew {}).Fits source {} := fun _ => ⟨rfl, rfl, rfl⟩
  refine ⟨draft.value, fun other hother => ⟨?searches, ?value, ?scanned⟩⟩
  case searches =>
    have hleft := hdraft other hother (Memo.renew {}) (hfresh other)
    have hright := hdraft fallback (fun _ => rfl) (Memo.renew {}) (hfresh fallback)
    exact hleft.memo.searches.trans hright.memo.searches.symm
  case value => exact (hdraft other hother (Memo.renew {}) (hfresh other)).value
  case scanned =>
    intro n machine hrun
    exact (Machine.allSourced_start { scope := ⟨map, other⟩ } raw).run hrun

/-- Two entries that lead to each other; one uses a property, and again in a default. -/
def greeting : OrderedMap Text :=
  .ofList [("a".toList, "${user}, ${b:${user}}".toList), ("b".toList, "${a}!".toList)]

/-- The property may hold a text that names a placeholder of the map. -/
theorem resolve_greeting :
    LiteralKeys "${a}".toList ∧ (∀ key text, greeting.get? key = some text → LiteralKeys text) ∧
    (∀ key, (Fallback.ofPairs [("user".toList, "${b}".toList)] key).isSome =
      (Fallback.ofPairs [("user".toList, "Rob".toList)] key).isSome) ∧
    (Evaluator.resolve { scope := ⟨greeting, .ofPairs [("user".toList, "${b}".toList)]⟩ }
        "${a}".toList).2.memo.searches =
      (Evaluator.resolve { scope := ⟨greeting, .ofPairs [("user".toList, "Rob".toList)]⟩ }
        "${a}".toList).2.memo.searches := by
  have hraw : LiteralKeys "${a}".toList := by
    have hfirst : firstPlaceholder "${a}".toList = some ([], "a".toList, []) := by decide
    exact literalKeys_of_unnested hfirst (by decide) (literalKeys_of_none rfl)
  have ha : LiteralKeys "${user}, ${b:${user}}".toList := by
    have hfirst : firstPlaceholder "${user}, ${b:${user}}".toList =
        some ([], "user".toList, ", ${b:${user}}".toList) := by decide
    have hsecond : firstPlaceholder ", ${b:${user}}".toList = some (", ".toList, "b:${user}".toList, []) := by
      decide
    have hinner : firstPlaceholder (defaultOf "b:${user}".toList) = some ([], "user".toList, []) := by decide
    have hdefault := literalKeys_of_unnested hinner (by decide) (literalKeys_of_none rfl)
    refine literalKeys_of_unnested hfirst (by decide) ((literalKeys_iff hsecond).2 ?_)
    exact ⟨by decide, hdefault, literalKeys_of_none rfl⟩
  have hb : LiteralKeys "${a}!".toList := by
    have hfirst : firstPlaceholder "${a}!".toList = some ([], "a".toList, "!".toList) := by decide
    exact literalKeys_of_unnested hfirst (by decide) (literalKeys_of_none (by decide))
  have hmap : ∀ key text, greeting.get? key = some text → LiteralKeys text := by
    intro key text hheld
    have hmem : (key, text) ∈ [("a".toList, "${user}, ${b:${user}}".toList), ("b".toList, "${a}!".toList)] :=
      OrderedMap.mem_of_lookup hheld
    simp only [List.mem_cons, Prod.mk.injEq, List.not_mem_nil, or_false] at hmem
    obtain ⟨-, rfl⟩ | ⟨-, rfl⟩ := hmem
    · exact ha
    · exact hb
  have hsame : ∀ key, (Fallback.ofPairs [("user".toList, "${b}".toList)] key).isSome =
      (Fallback.ofPairs [("user".toList, "Rob".toList)] key).isSome := by
    intro key
    unfold Fallback.ofPairs
    rw [List.lookup_cons, List.lookup_cons]
    split <;> rfl
  obtain ⟨template, hfills⟩ := resolve_fills_template greeting "${a}".toList
    (.ofPairs [("user".toList, "Rob".toList)]) hraw hmap
  exact ⟨hraw, hmap, hsame, (hfills _ hsame).1⟩

end LayeredConfig.Placeholder
