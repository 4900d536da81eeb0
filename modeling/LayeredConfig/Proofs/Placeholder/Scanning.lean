import LayeredConfig.Proofs.Loop
import LayeredConfig.Proofs.Placeholder.Balanced

/-! Two scans that agree on nesting. The scan for the closing brace stops exactly behind a balanced text, and
the scan for the colon divides a balanced text into balanced parts. Both are loops over the bytes of a text
with a counter for the placeholders that are open. The counter is taken as an integer, so that a count below
zero would be seen: the first scan never comes to one, and the second never has to hold its counter at zero
on a balanced text, because what is ahead of it closes as many placeholders as are open. -/

namespace LayeredConfig.Placeholder

/-! ### Colons outside every placeholder -/

/-- A character lies in a placeholder of its text. -/
def Nested (before : Text) (c : Char) (after : Text) : Prop :=
  ∃ outer inner inner' outer', before = outer ++ (opening ++ inner) ∧ after = inner' ++ '}' :: outer' ∧
    Balanced (inner ++ c :: inner')

/-- A body is divided at its first colon that lies in no placeholder. -/
structure FirstColon (body key default : Text) : Prop where
  text : body = key ++ ':' :: default
  free : ¬Nested key ':' default
  first : ∀ before after, body = before ++ ':' :: after → before.length < key.length →
    Nested before ':' after

section Nested

variable {before after body key default : Text} {c : Char}

theorem Nested.widen (h : Nested before c after) (left right : Text) :
    Nested (left ++ before) c (after ++ right) := by
  obtain ⟨outer, inner, inner', outer', rfl, rfl, hbalanced⟩ := h
  exact ⟨left ++ outer, inner, inner', outer' ++ right, by simp, by simp, hbalanced⟩

/-- The placeholder would have to be closed on both sides of the character. -/
theorem Balanced.not_nested (h : Balanced before) : ¬Nested before c after := by
  rintro ⟨outer, inner, inner', outer', rfl, rfl, hbalanced⟩
  obtain ⟨closed, rest, rfl, hclosed⟩ := h.exists_close
  rw [List.append_assoc, List.cons_append] at hbalanced
  exact hclosed.not_append_close _ hbalanced

theorem FirstColon.unique {key' default' : Text} (h : FirstColon body key default)
    (h' : FirstColon body key' default') : key = key' ∧ default = default' := by
  have hlength : key.length = key'.length := by
    rcases Nat.lt_trichotomy key.length key'.length with hlt | heq | hgt
    · exact absurd (h'.first key default h.text hlt) h.free
    · exact heq
    · exact absurd (h.first key' default' h'.text hgt) h'.free
  obtain ⟨hkey, htail⟩ := List.append_inj (h.text.symm.trans h'.text) hlength
  exact ⟨hkey, (List.cons.inj htail).2⟩

end Nested

/-! ### The parts of a balanced body -/

section Parts

variable {t body key default : Text} {c : Char} {depth : Nat}

theorem defaultAt_opening (depth : Nat) (t : Text) : defaultAt depth (opening ++ t) =
    (opening ++ (defaultAt (depth + 1) t).1, (defaultAt (depth + 1) t).2) := rfl

theorem defaultAt_close (depth : Nat) (t : Text) : defaultAt depth ('}' :: t) =
    ('}' :: (defaultAt (depth - 1) t).1, (defaultAt (depth - 1) t).2) := rfl

theorem defaultAt_cons (hclose : c ≠ '}') (hopen : ¬opening <+: c :: t) (hinside : c = ':' → depth ≠ 0) :
    defaultAt depth (c :: t) = (c :: (defaultAt depth t).1, (defaultAt depth t).2) := by
  rw [defaultAt]
  · exact not_opening_iff.1 hopen
  · exact hclose
  · exact fun hdepth hcolon => hinside hcolon hdepth

/-- Inside a placeholder no colon divides. -/
theorem defaultAt_append_close (h : Balanced body) (depth : Nat) (t : Text) :
    defaultAt (depth + 1) (body ++ '}' :: t) =
      (body ++ '}' :: (defaultAt depth t).1, (defaultAt depth t).2) := by
  induction h generalizing depth t with
  | nil => exact defaultAt_close (depth + 1) t
  | @char c body hclose hopen _ ih =>
      rw [List.cons_append, defaultAt_cons hclose (not_opening_append hopen (by decide) t)
        fun _ => Nat.succ_ne_zero depth, ih]
      rfl
  | @placeholder inner body _ _ ihInner ihBody =>
      have hnested : opening ++ inner ++ '}' :: body ++ '}' :: t =
          opening ++ (inner ++ '}' :: (body ++ '}' :: t)) := by
        simp
      rw [hnested, defaultAt_opening, ihInner, ihBody]
      simp

/-- The parts of a balanced body: the colons that are left in the key lie in its placeholders. -/
structure Divided (parts : Text × Option Text) : Prop where
  key : Balanced parts.1
  default : ∀ t ∈ parts.2, Balanced t
  inside : ∀ before after, parts.1 = before ++ ':' :: after → Nested before ':' after

theorem Divided.char {parts : Text × Option Text} (h : Divided parts) (hclose : c ≠ '}')
    (hopen : ¬opening <+: c :: parts.1) (hcolon : c ≠ ':') : Divided (c :: parts.1, parts.2) := by
  refine ⟨.char hclose hopen h.key, h.default, fun before after heq => ?_⟩
  cases before with
  | nil => exact absurd (List.cons.inj heq).1 hcolon
  | cons d before =>
      have hnested := (h.inside before after (List.cons.inj heq).2).widen [d] []
      rwa [List.append_nil] at hnested

/-- A character of two texts put together belongs to one of them. -/
theorem side_of_append {s t before after : Text} (h : s ++ t = before ++ c :: after) :
    (∃ gap, s = before ++ c :: gap ∧ after = gap ++ t) ∨ ∃ gap, before = s ++ gap ∧ t = gap ++ c :: after := by
  rcases List.append_eq_append_iff.1 h with ⟨gap, hbefore, ht⟩ | ⟨gap, hs, hafter⟩
  · exact .inr ⟨gap, hbefore, ht⟩
  · cases gap with
    | nil =>
        rw [List.append_nil] at hs
        exact .inr ⟨[], by rw [hs, List.append_nil], hafter.symm⟩
    | cons d gap =>
        obtain ⟨rfl, rfl⟩ := List.cons.inj hafter
        exact .inl ⟨gap, hs, rfl⟩

theorem Divided.placeholder {parts : Text × Option Text} (h : Divided parts) (hbody : Balanced body) :
    Divided (opening ++ body ++ '}' :: parts.1, parts.2) := by
  refine ⟨.placeholder hbody h.key, h.default, fun before after heq => ?_⟩
  have hsides : opening ++ (body ++ (['}'] ++ parts.1)) = before ++ ':' :: after := by
    rw [← heq, List.append_assoc, List.singleton_append]
  rcases side_of_append hsides with ⟨gap, hopening, -⟩ | ⟨inner, rfl, hinner⟩
  · have hmem : ':' ∈ opening := hopening ▸ List.mem_append_right before List.mem_cons_self
    exact absurd hmem (by decide)
  · rcases side_of_append hinner with ⟨inner', rfl, rfl⟩ | ⟨outer, rfl, houter⟩
    · exact ⟨[], inner, inner', parts.1, rfl, rfl, hbody⟩
    · rcases side_of_append houter with ⟨gap, hbrace, -⟩ | ⟨later, rfl, hlater⟩
      · have hmem : ':' ∈ ['}'] := hbrace ▸ List.mem_append_right outer List.mem_cons_self
        exact absurd hmem (by decide)
      · have hnested := (h.inside later after hlater).widen (opening ++ (body ++ ['}'])) []
        simpa using hnested

/-- The induction follows the balanced body; only a colon between its placeholders ends the key. -/
theorem Balanced.divided (h : Balanced body) : Divided (splitDefault body) := by
  induction h with
  | nil => exact ⟨.nil, by simp [splitDefault, defaultAt], by simp [splitDefault, defaultAt]⟩
  | @char c t hclose hopen ht ih =>
      by_cases hcolon : c = ':'
      · subst hcolon
        have hsplit : splitDefault (':' :: t) = ([], some t) := rfl
        rw [hsplit]
        exact ⟨.nil, by simpa using ht, by simp⟩
      · have hshort : ¬opening <+: c :: (splitDefault t).1 := by
          intro hstarts
          have hkey : (splitDefault t).1 <+: t := ⟨_, defaultAt_append 0 t⟩
          exact hopen (hstarts.trans (List.cons_prefix_cons.2 ⟨rfl, hkey⟩))
        rw [splitDefault, defaultAt_cons hclose hopen fun heq => absurd heq hcolon]
        exact ih.char hclose hshort hcolon
  | @placeholder body t hbody _ _ iht =>
      rw [splitDefault, List.append_assoc, defaultAt_opening, defaultAt_append_close hbody, ← List.append_assoc]
      exact iht.placeholder hbody

theorem text_of_splitDefault (h : splitDefault body = (key, some default)) : body = key ++ ':' :: default := by
  have hparts := defaultAt_append 0 body
  rw [← splitDefault, h] at hparts
  exact hparts.symm

theorem Balanced.firstColon (hbody : Balanced body) (h : splitDefault body = (key, some default)) :
    FirstColon body key default := by
  have hdivided := hbody.divided
  rw [h] at hdivided
  have htext := text_of_splitDefault h
  refine ⟨htext, hdivided.key.not_nested, fun before after heq hlength => ?_⟩
  rcases side_of_append (htext.symm.trans heq) with ⟨gap, hkey, rfl⟩ | ⟨gap, rfl, -⟩
  · exact (hdivided.inside before gap hkey).widen [] (':' :: default)
  · rw [List.length_append] at hlength
    omega

/-- A balanced body is divided at its first colon outside, or all its colons lie inside. -/
theorem Balanced.splitDefault_cases (hbody : Balanced body) :
    (∃ key default, splitDefault body = (key, some default) ∧ FirstColon body key default) ∨
      splitDefault body = (body, none) ∧ ∀ before after, body = before ++ ':' :: after → Nested before ':' after := by
  have hdivided := hbody.divided
  have hparts := defaultAt_append 0 body
  rw [← splitDefault] at hparts
  cases hsplit : splitDefault body with
  | mk key default =>
      rw [hsplit] at hdivided hparts
      cases default with
      | none =>
          have hkey : key = body := by rw [← hparts]; simp
          subst hkey
          exact .inr ⟨rfl, hdivided.inside⟩
      | some default => exact .inl ⟨key, default, rfl, hbody.firstColon hsplit⟩

theorem splitDefault_eq_some_iff (hbody : Balanced body) :
    splitDefault body = (key, some default) ↔ FirstColon body key default := by
  refine ⟨hbody.firstColon, fun h => ?_⟩
  rcases hbody.splitDefault_cases with ⟨key', default', hsplit, hfirst⟩ | ⟨-, hinside⟩
  · obtain ⟨rfl, rfl⟩ := hfirst.unique h
    exact hsplit
  · exact absurd (hinside key default h.text) h.free

theorem splitDefault_eq_none_iff (hbody : Balanced body) :
    splitDefault body = (key, none) ↔
      key = body ∧ ∀ before after, body = before ++ ':' :: after → Nested before ':' after := by
  rcases hbody.splitDefault_cases with ⟨key', default', hsplit, hfirst⟩ | ⟨hsplit, hinside⟩
  · rw [hsplit]
    exact iff_of_false (by simp) fun h => hfirst.free (h.2 key' default' hfirst.text)
  · rw [hsplit]
    exact ⟨fun h => ⟨(Prod.mk.inj h).1.symm, hinside⟩, fun h => Prod.ext h.1.symm rfl⟩

end Parts

/-! ### Loops with a counter -/

/-- The number of bytes of a text. -/
def bytes (t : Text) : Nat := (String.ofList t).utf8ByteSize

@[simp] theorem bytes_nil : bytes [] = 0 := rfl

theorem bytes_cons (c : Char) (t : Text) : bytes (c :: t) = c.utf8Size + bytes t := by
  simp [bytes]

@[simp] theorem bytes_opening (t : Text) : bytes ('$' :: '{' :: t) = 2 + bytes t := by
  rw [bytes_cons, bytes_cons, ← Nat.add_assoc]
  rfl

@[simp] theorem bytes_close (t : Text) : bytes ('}' :: t) = 1 + bytes t := bytes_cons '}' t

/-- Where a scan stands: the byte it has come to, the placeholders that are open there, and what is ahead. -/
structure Scan where
  offset : Nat
  depth : Int
  ahead : Text

namespace Scan

def start (t : Text) : Scan := ⟨0, 0, t⟩

/-- A turn of the scan for the brace that closes a placeholder. -/
def closeTurn : Scan → Turn Scan (Option Nat)
  | ⟨_, _, []⟩ => .done none
  | ⟨offset, depth, '$' :: '{' :: t⟩ => .on ⟨offset + 2, depth + 1, t⟩
  | ⟨offset, depth, '}' :: t⟩ => if depth = 0 then .done (some offset) else .on ⟨offset + 1, depth - 1, t⟩
  | ⟨offset, depth, c :: t⟩ => .on ⟨offset + c.utf8Size, depth, t⟩

/-- A turn of the scan for the colon in front of a default. Zero is held when a brace would lower it. -/
def colonTurn : Scan → Turn Scan (Option Nat)
  | ⟨_, _, []⟩ => .done none
  | ⟨offset, depth, '$' :: '{' :: t⟩ => .on ⟨offset + 2, depth + 1, t⟩
  | ⟨offset, depth, '}' :: t⟩ => .on ⟨offset + 1, max 0 (depth - 1), t⟩
  | ⟨offset, depth, ':' :: t⟩ => if depth = 0 then .done (some offset) else .on ⟨offset + 1, depth, t⟩
  | ⟨offset, depth, c :: t⟩ => .on ⟨offset + c.utf8Size, depth, t⟩

section Turns

variable {scan next : Scan} {t : Text} {c : Char} {result : Option Nat}

theorem closeTurn_cons (hclose : c ≠ '}') (hopen : ¬opening <+: c :: t) (offset : Nat) (depth : Int) :
    closeTurn ⟨offset, depth, c :: t⟩ = .on ⟨offset + c.utf8Size, depth, t⟩ := by
  rw [closeTurn]
  · exact not_opening_iff.1 hopen
  · exact hclose

theorem colonTurn_cons (hclose : c ≠ '}') (hopen : ¬opening <+: c :: t) (offset : Nat) {depth : Int}
    (hinside : c = ':' → depth ≠ 0) :
    colonTurn ⟨offset, depth, c :: t⟩ = .on ⟨offset + c.utf8Size, depth, t⟩ := by
  by_cases hcolon : c = ':'
  · subst hcolon
    rw [colonTurn, if_neg (hinside rfl)]
    rfl
  · rw [colonTurn]
    · exact not_opening_iff.1 hopen
    · exact hclose
    · exact hcolon

/-- The loop gives the byte at which the body ends. -/
theorem ends_closeTurn_iff (offset depth : Nat) (t : Text) : Ends closeTurn ⟨offset, depth, t⟩ result ↔
    result = (closeAt depth t).map fun parts => offset + bytes parts.1 := by
  fun_induction closeAt depth t generalizing offset with
  | case1 => exact ends_iff_of_done rfl
  | case2 depth t ih =>
      have hturn : closeTurn ⟨offset, depth, '$' :: '{' :: t⟩ = .on ⟨offset + 2, (depth + 1 : Nat), t⟩ := rfl
      rw [ends_iff_of_on hturn, ih, Option.map_map]
      simp [Function.comp_def, Nat.add_assoc]
  | case3 t => exact ends_iff_of_done rfl
  | case4 depth t ih =>
      have hturn : closeTurn ⟨offset, (depth + 1 : Nat), '}' :: t⟩ = .on ⟨offset + 1, depth, t⟩ := by
        rw [closeTurn, if_neg (by omega), Int.natCast_add, Int.natCast_one, Int.add_sub_cancel]
      rw [ends_iff_of_on hturn, ih, Option.map_map]
      simp [Function.comp_def, Nat.add_assoc]
  | case5 depth c t hopen hclose hclose' ih =>
      have hplain := ne_close_of_forall hclose hclose'
      have hstarts := not_opening_iff.2 hopen
      rw [ends_iff_of_on (closeTurn_cons hplain hstarts offset depth), ih, Option.map_map]
      simp [bytes_cons, Function.comp_def, Nat.add_assoc]

/-- The loop gives the byte of the colon. -/
theorem ends_colonTurn_iff (offset depth : Nat) (t : Text) : Ends colonTurn ⟨offset, depth, t⟩ result ↔
    result = (defaultAt depth t).2.map fun _ => offset + bytes (defaultAt depth t).1 := by
  fun_induction defaultAt depth t generalizing offset with
  | case1 => exact ends_iff_of_done rfl
  | case2 depth t key default hsplit ih =>
      have hturn : colonTurn ⟨offset, depth, '$' :: '{' :: t⟩ = .on ⟨offset + 2, (depth + 1 : Nat), t⟩ := rfl
      rw [ends_iff_of_on hturn, ih, hsplit]
      simp [Nat.add_assoc]
  | case3 depth t key default hsplit ih =>
      have hturn : colonTurn ⟨offset, depth, '}' :: t⟩ = .on ⟨offset + 1, (depth - 1 : Nat), t⟩ := by
        have hheld : max 0 ((depth : Int) - 1) = (depth - 1 : Nat) := by omega
        rw [colonTurn, hheld]
      rw [ends_iff_of_on hturn, ih, hsplit]
      simp [Nat.add_assoc]
  | case4 t => exact ends_iff_of_done rfl
  | case5 depth c t hopen hclose hcolon key default hsplit ih =>
      have hstarts := not_opening_iff.2 hopen
      have hinside : c = ':' → (depth : Int) ≠ 0 := fun heq hzero => hcolon (by omega) heq
      rw [ends_iff_of_on (colonTurn_cons hclose hstarts offset hinside), ih, hsplit]
      simp [bytes_cons, Nat.add_assoc]

theorem depth_nonneg_of_closeTurn (h : 0 ≤ scan.depth) (hturn : closeTurn scan = .on next) :
    0 ≤ next.depth := by
  unfold closeTurn at hturn
  split at hturn
  · cases hturn
  · cases hturn
    exact Int.add_nonneg h Int.one_nonneg
  · split at hturn
    · cases hturn
    · rename_i hdepth
      cases hturn
      dsimp only at h ⊢
      omega
  · cases hturn
    exact h

/-- What is ahead closes exactly the placeholders that are open. -/
def Matched (scan : Scan) : Prop := ∃ depth : Nat, scan.depth = depth ∧ ClosesAt depth scan.ahead

theorem Matched.depth_pos (h : scan.Matched) (hahead : scan.ahead = '}' :: t) : 0 < scan.depth := by
  obtain ⟨depth, hdepth, hcloses⟩ := h
  rw [hahead] at hcloses
  obtain ⟨outer, rfl, -⟩ := hcloses.of_close
  omega

/-- The scan for the colon passes over what it opens and what it closes. -/
theorem Matched.turn (h : scan.Matched) (hturn : colonTurn scan = .on next) : next.Matched := by
  obtain ⟨depth, hdepth, hcloses⟩ := h
  unfold colonTurn at hturn
  split at hturn
  · cases hturn
  · cases hturn
    exact ⟨depth + 1, congrArg (· + 1) hdepth, hcloses.of_opening⟩
  · cases hturn
    obtain ⟨outer, rfl, houter⟩ := hcloses.of_close
    refine ⟨outer, ?_, houter⟩
    dsimp only at hdepth ⊢
    omega
  · split at hturn
    · cases hturn
    · cases hturn
      exact ⟨depth, hdepth, hcloses.of_char (by decide) (by simp [opening])⟩
  · rename_i offset count c t hopen hclose hcolon
    cases hturn
    have hstarts := not_opening_iff.2 hopen
    exact ⟨depth, hdepth, hcloses.of_char hclose hstarts⟩

end Turns

end Scan

/-! ### What the scans find -/

/-- The scan for the closing brace, on the text behind an opening. -/
structure CloseScan (t : Text) : Prop where
  /-- It finds a brace exactly where the text before the brace is balanced. -/
  found : ∀ body rest, splitClose t = some (body, rest) ↔ t = body ++ '}' :: rest ∧ Balanced body
  absent : splitClose t = none ↔ ∀ body rest, t = body ++ '}' :: rest → ¬Balanced body
  unique : ∀ body rest body' rest', t = body ++ '}' :: rest → Balanced body →
    t = body' ++ '}' :: rest' → Balanced body' → body = body'
  /-- Counted in bytes, it stops where the body ends. -/
  offset : ∀ result, Ends Scan.closeTurn (.start t) result ↔
    result = (splitClose t).map fun parts => bytes parts.1
  /-- The counter is never lowered below zero. -/
  counter : ∀ scan, Visits Scan.closeTurn (.start t) scan → 0 ≤ scan.depth

/-- The scan for the colon, on the body of a placeholder. -/
structure ColonScan (body : Text) : Prop where
  /-- The body is divided at its first colon that lies in no placeholder. -/
  divided : ∀ key default, splitDefault body = (key, some default) ↔ FirstColon body key default
  undivided : ∀ key, splitDefault body = (key, none) ↔
    key = body ∧ ∀ before after, body = before ++ ':' :: after → Nested before ':' after
  balanced : ∀ key default, splitDefault body = (key, some default) →
    body = key ++ ':' :: default ∧ Balanced key ∧ Balanced default
  /-- Counted in bytes, it stops where the key ends. -/
  offset : ∀ result, Ends Scan.colonTurn (.start body) result ↔
    result = (splitDefault body).2.map fun _ => bytes (splitDefault body).1
  /-- A placeholder is open at every brace that the scan comes to. -/
  counter : ∀ scan t, Visits Scan.colonTurn (.start body) scan → scan.ahead = '}' :: t → 0 < scan.depth

theorem closeScan (t : Text) : CloseScan t where
  found body rest := splitClose_eq_some_iff
  absent := by
    rw [Option.eq_none_iff_forall_not_mem]
    exact ⟨fun h body rest heq hbody => h (body, rest) (splitClose_eq_some_iff.2 ⟨heq, hbody⟩),
      fun h parts hparts => h _ _ (splitClose_eq_some_iff.1 hparts).1 (splitClose_eq_some_iff.1 hparts).2⟩
  unique body rest body' rest' heq hbody heq' hbody' := by
    have hfirst := splitClose_eq_some_iff.2 ⟨heq, hbody⟩
    rw [splitClose_eq_some_iff.2 ⟨heq', hbody'⟩] at hfirst
    exact (Prod.mk.inj (Option.some.inj hfirst)).1.symm
  offset result := by
    have hends : Ends Scan.closeTurn (.start t) result ↔ _ := Scan.ends_closeTurn_iff 0 0 t
    simp only [Nat.zero_add] at hends
    exact hends
  counter scan h := h.keeps (fun _ _ => Scan.depth_nonneg_of_closeTurn) (Int.le_refl 0)

theorem Balanced.colonScan {body : Text} (h : Balanced body) : ColonScan body where
  divided key default := splitDefault_eq_some_iff h
  undivided key := splitDefault_eq_none_iff h
  balanced key default hsplit := by
    have hdivided := h.divided
    rw [hsplit] at hdivided
    exact ⟨text_of_splitDefault hsplit, hdivided.key, hdivided.default default rfl⟩
  offset result := by
    have hends : Ends Scan.colonTurn (.start body) result ↔ _ := Scan.ends_colonTurn_iff 0 0 body
    simp only [Nat.zero_add] at hends
    exact hends
  counter scan t hvisits hahead := by
    have hmatched : scan.Matched := hvisits.keeps (fun _ _ => Scan.Matched.turn) ⟨0, rfl, h⟩
    exact hmatched.depth_pos hahead

/-- The two scans accept the same texts: one finds the brace behind a balanced text, and the other divides a
balanced text into balanced parts, without either of them losing count. -/
theorem scans_agree (t : Text) : CloseScan t ∧ (Balanced t → ColonScan t) :=
  ⟨closeScan t, Balanced.colonScan⟩

/-- The first colon lies in a placeholder. -/
theorem scans_agree_nested :
    Balanced "${a:b}:c:d".toList ∧ ColonScan "${a:b}:c:d".toList ∧
      splitDefault "${a:b}:c:d".toList = ("${a:b}".toList, some "c:d".toList) := by
  have hbalanced : Balanced "${a:b}:c:d".toList := by decide
  exact ⟨hbalanced, (scans_agree _).2 hbalanced, rfl⟩

end LayeredConfig.Placeholder
