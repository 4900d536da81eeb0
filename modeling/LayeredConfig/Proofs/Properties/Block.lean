import LayeredConfig.Proofs.Properties.Line

/-! Logical lines as blocks of physical lines. A logical line is completed by testing, again and again, the
line that has been put together so far. It comes to the same to look at each physical line by itself: an
entry takes lines as long as they end in an odd number of backslashes, and consists of what each of them
gives, without the blanks at its start and the backslash that continues it. So the logical lines of a text
are told by the places at which a block stands. -/

namespace LayeredConfig.Properties

/-! ### Blocks -/

/-- An entry that has come to a line takes the lines `more` of those that follow, and leaves `after`. -/
inductive Carried : Text → List Text → List Text → Prop
  | whole {line : Text} {after : List Text} (h : continues line = false) : Carried line [] after
  | atEnd {line : Text} (h : continues line = true) : Carried line [] []
  | next {line next : Text} {more after : List Text} (h : continues line = true)
      (hrest : Carried next more after) : Carried line (next :: more) after

/-- A text without the backslash that is open at its end. -/
def strip (t : Text) : Text := if continues t then t.dropLast else t

/-- What a physical line gives to the entry it belongs to. -/
def share (line : Text) : Text := strip (trimStart line)

/-- The lines of a block put together. -/
def joined (block : List Text) : Text := block.flatMap share

/-- Whether an entry is open after the lines. A line belongs to an entry when one is open before it, or when
it is neither blank nor a comment; it leaves its entry open when it ends in an odd number of backslashes. -/
def openAfter (opened : Bool) : List Text → Bool
  | [] => opened
  | line :: rest => openAfter ((opened || !isIdle (trimStart line)) && continues line) rest

/-- A place in the lines of a text at which an entry stands. -/
structure EntryAt (lines before : List Text) (first : Text) (more after : List Text) : Prop where
  divided : lines = before ++ first :: (more ++ after)
  /-- The first line does not belong to an earlier entry. -/
  closed : openAfter false before = false
  starts : isIdle (trimStart first) = false
  carried : Carried first more after

/-- The lines hold a logical line: the block it is put together from starts on the line it is numbered by. -/
def Holds (lines : List Text) (line : LogicalLine) : Prop :=
  ∃ before first more after, EntryAt lines before first more after ∧
    line = ⟨before.length + 1, joined (first :: more)⟩

/-- The line, with another number. -/
def LogicalLine.renumber (f : Nat → Nat) (line : LogicalLine) : LogicalLine :=
  { line with number := f line.number }

/-- Lines with their numbers, the first of which is one more than `start`. -/
def numberedFrom (start : Nat) (lines : List Text) : List (Nat × Text) :=
  (lines.zipIdx start).map fun (line, index) => (index + 1, line)

section Strip

variable {s t : Text}

theorem strip_of_whole (h : continues t = false) : strip t = t := by
  rw [strip, h, if_neg Bool.false_ne_true]

theorem strip_backslash (h : continues s = false) : strip (s ++ ['\\']) = s := by
  rw [strip, continues_append h, if_pos (show continues ['\\'] = true from rfl), List.dropLast_concat]

theorem strip_append (h : continues s = false) (t : Text) : strip (s ++ t) = s ++ strip t := by
  cases ht : continues t with
  | false => rw [strip_of_whole ht, strip_of_whole (by rw [continues_append h, ht])]
  | true =>
      obtain ⟨u, rfl, hu⟩ := exists_of_continues ht
      have hwhole : continues (s ++ u) = false := by rw [continues_append h, hu]
      rw [← List.append_assoc, strip_backslash hwhole, strip_backslash hu]

/-- Nothing is open any more. -/
theorem continues_strip (t : Text) : continues (strip t) = false := by
  cases ht : continues t with
  | false => rw [strip_of_whole ht, ht]
  | true =>
      obtain ⟨u, rfl, hu⟩ := exists_of_continues ht
      rw [strip_backslash hu, hu]

end Strip

section Carried

variable {line next : Text} {more after rest : List Text}

theorem exists_carried (line : Text) (rest : List Text) :
    ∃ more after, rest = more ++ after ∧ Carried line more after := by
  induction rest generalizing line with
  | nil =>
      cases h : continues line with
      | false => exact ⟨[], [], rfl, .whole h⟩
      | true => exact ⟨[], [], rfl, .atEnd h⟩
  | cons next rest ih =>
      cases h : continues line with
      | false => exact ⟨[], next :: rest, rfl, .whole h⟩
      | true =>
          obtain ⟨more, after, rfl, hrest⟩ := ih next
          exact ⟨next :: more, after, rfl, .next h hrest⟩

/-- Of its first line, a block takes notice only of the backslashes at its end. -/
theorem Carried.of_continues_eq (h : Carried line more after) (heq : continues next = continues line) :
    Carried next more after := by
  cases h with
  | whole h => exact .whole (heq.trans h)
  | atEnd h => exact .atEnd (heq.trans h)
  | next h hrest => exact .next (heq.trans h) hrest

theorem Carried.openAfter_of_ne_nil (h : Carried line more after) (hafter : after ≠ []) :
    openAfter (continues line) more = false := by
  induction h with
  | whole h => exact h
  | atEnd => exact absurd rfl hafter
  | next h _ ih =>
      rw [openAfter, h, Bool.true_or, Bool.true_and]
      exact ih hafter

/-- A block that is closed where its text ends is not carried on when more text follows. -/
theorem Carried.append (h : Carried line more after)
    (hclosed : openAfter (continues line) (more ++ after) = false) (rest : List Text) :
    Carried line more (after ++ rest) ∧ openAfter false after = false := by
  induction h with
  | whole h =>
      rw [h, List.nil_append] at hclosed
      exact ⟨.whole h, hclosed⟩
  | atEnd h =>
      rw [h] at hclosed
      cases hclosed
  | next h _ ih =>
      rw [h, List.cons_append, openAfter, Bool.true_or, Bool.true_and] at hclosed
      obtain ⟨hcarried, hopen⟩ := ih hclosed
      exact ⟨.next h hcarried, hopen⟩

/-- An empty line after a text either follows its last block, or ends it with nothing. -/
theorem Carried.append_blank (h : Carried line more after) :
    Carried line more (after ++ [[]]) ∨ after = [] ∧ Carried line (more ++ [[]]) [] := by
  induction h with
  | whole h => exact .inl (.whole h)
  | atEnd h => exact .inr ⟨rfl, .next h (.whole rfl)⟩
  | next h _ ih =>
      rcases ih with hleft | ⟨hnil, hright⟩
      · exact .inl (.next h hleft)
      · exact .inr ⟨hnil, .next h hright⟩

end Carried

section OpenAfter

theorem openAfter_append (opened : Bool) (first second : List Text) :
    openAfter opened (first ++ second) = openAfter (openAfter opened first) second := by
  induction first generalizing opened with
  | nil => rfl
  | cons line first ih => exact ih _

theorem openAfter_of_idle {line : Text} (h : isIdle (trimStart line) = true) (rest : List Text) :
    openAfter false (line :: rest) = openAfter false rest := by
  rw [openAfter, h]
  rfl

theorem openAfter_of_start {line : Text} (h : isIdle (trimStart line) = false) (rest : List Text) :
    openAfter false (line :: rest) = openAfter (continues line) rest := by
  rw [openAfter, h]
  rfl

end OpenAfter

/-! ### The logical lines of a row of lines -/

section LogicalLines

variable {start : Nat} {line : Text} {more after rest lines : List Text}

theorem numberedFrom_cons (start : Nat) (line : Text) (rest : List Text) :
    numberedFrom start (line :: rest) = (start + 1, line) :: numberedFrom (start + 1) rest := rfl

/-- A line is completed by its block, whatever has been put together before. -/
theorem complete_carried (h : Carried line more after) {s : Text} (hs : continues s = continues line)
    (start : Nat) :
    complete s (numberedFrom start (more ++ after)) =
      (strip s ++ joined more, numberedFrom (start + more.length) after) := by
  induction h generalizing s start with
  | whole h =>
      rw [complete_of_whole (hs.trans h), strip_of_whole (hs.trans h)]
      exact congrArg (·, _) (List.append_nil s).symm
  | atEnd h => exact congrArg (·, []) (List.append_nil (strip s)).symm
  | @next line next more after h _ ih =>
      obtain ⟨u, rfl, hu⟩ := exists_of_continues (hs.trans h)
      have hjoint : continues (u ++ trimStart next) = continues next := by
        rw [continues_append hu, continues_trimStart]
      rw [List.cons_append, numberedFrom_cons, complete, if_pos (hs.trans h), List.dropLast_concat,
        ih hjoint, strip_append hu, strip_backslash hu, List.append_assoc, List.length_cons,
        Nat.add_right_comm, Nat.add_assoc]
      rfl

theorem logicalLines_nil (start : Nat) : logicalLines (numberedFrom start []) = [] := by
  rw [numberedFrom, List.zipIdx_nil, List.map_nil, logicalLines]

theorem logicalLines_of_idle (h : isIdle (trimStart line) = true) (start : Nat) (rest : List Text) :
    logicalLines (numberedFrom start (line :: rest)) = logicalLines (numberedFrom (start + 1) rest) := by
  rw [numberedFrom_cons, logicalLines]
  exact if_pos h

theorem logicalLines_of_carried (hstart : isIdle (trimStart line) = false) (h : Carried line more after)
    (start : Nat) :
    logicalLines (numberedFrom start (line :: (more ++ after))) =
      ⟨start + 1, joined (line :: more)⟩ :: logicalLines (numberedFrom (start + (more.length + 1)) after) := by
  have hcomplete := complete_carried h (continues_trimStart line) (start + 1)
  rw [numberedFrom_cons, logicalLines]
  dsimp only
  rw [hstart, if_neg Bool.false_ne_true, hcomplete, Nat.add_assoc, Nat.add_comm 1]
  rfl

/-- Lines are gone through idle line by idle line and block by block. -/
theorem blocks_induction {motive : Nat → List Text → Prop} (nil : ∀ start, motive start [])
    (idle : ∀ start line rest, isIdle (trimStart line) = true → motive (start + 1) rest →
      motive start (line :: rest))
    (block : ∀ start line more after, isIdle (trimStart line) = false → Carried line more after →
      motive (start + (more.length + 1)) after → motive start (line :: (more ++ after)))
    (start : Nat) (lines : List Text) : motive start lines := by
  induction hlength : lines.length using Nat.strongRecOn generalizing start lines with
  | ind length ih =>
      subst hlength
      cases lines with
      | nil => exact nil start
      | cons line rest =>
          cases hidle : isIdle (trimStart line) with
          | true => exact idle start line rest hidle (ih _ (Nat.lt_succ_self _) _ _ rfl)
          | false =>
              obtain ⟨more, after, rfl, hcarried⟩ := exists_carried line rest
              refine block start line more after hidle hcarried (ih _ ?_ _ _ rfl)
              rw [List.length_cons, List.length_append]
              omega

/-- Where no entry is open, what follows is read by itself. -/
theorem logicalLines_append (start : Nat) (lines rest : List Text) (h : openAfter false lines = false) :
    logicalLines (numberedFrom start (lines ++ rest)) =
      logicalLines (numberedFrom start lines) ++ logicalLines (numberedFrom (start + lines.length) rest) := by
  induction start, lines using blocks_induction with
  | nil start => rw [logicalLines_nil]; rfl
  | idle start line lines hidle ih =>
      rw [openAfter_of_idle hidle] at h
      rw [List.cons_append, logicalLines_of_idle hidle, logicalLines_of_idle hidle, ih h, List.length_cons,
        Nat.add_right_comm, Nat.add_assoc]
  | block start line more after hstart hcarried ih =>
      rw [openAfter_of_start hstart] at h
      obtain ⟨hmore, hclosed⟩ := hcarried.append h rest
      rw [List.cons_append, List.append_assoc, logicalLines_of_carried hstart hmore,
        logicalLines_of_carried hstart hcarried, ih hclosed, List.cons_append, List.length_cons,
        List.length_append]
      congr 4
      omega

/-- An empty line at the end adds nothing, whether an entry is open or not. -/
theorem logicalLines_append_blank (start : Nat) (lines : List Text) :
    logicalLines (numberedFrom start (lines ++ [[]])) = logicalLines (numberedFrom start lines) := by
  have hblank : ∀ start, logicalLines (numberedFrom start [[]]) = [] := fun start => by
    rw [logicalLines_of_idle rfl, logicalLines_nil]
  induction start, lines using blocks_induction with
  | nil start => rw [List.nil_append, hblank, logicalLines_nil]
  | idle start line lines hidle ih =>
      rw [List.cons_append, logicalLines_of_idle hidle, logicalLines_of_idle hidle, ih]
  | block start line more after hstart hcarried ih =>
      rw [List.cons_append, List.append_assoc, logicalLines_of_carried hstart hcarried]
      rcases hcarried.append_blank with hmore | ⟨rfl, hmore⟩
      · rw [logicalLines_of_carried hstart hmore, ih]
      · have hjoined : joined (line :: (more ++ [[]])) = joined (line :: more) := by
          simp [joined, share, strip, trimStart]
        have hlines := logicalLines_of_carried hstart hmore start
        rw [List.append_nil] at hlines
        rw [List.nil_append, hlines, hjoined, logicalLines_nil, logicalLines_nil]

/-- Numbering from a later number on makes every number that much greater. -/
theorem logicalLines_numberedFrom_add (start shift : Nat) (lines : List Text) :
    logicalLines (numberedFrom (start + shift) lines) =
      (logicalLines (numberedFrom start lines)).map (.renumber (· + shift)) := by
  induction start, lines using blocks_induction with
  | nil start => rw [logicalLines_nil, logicalLines_nil, List.map_nil]
  | idle start line lines hidle ih =>
      rw [logicalLines_of_idle hidle, logicalLines_of_idle hidle, ← ih, Nat.add_right_comm]
  | block start line more after hstart hcarried ih =>
      rw [logicalLines_of_carried hstart hcarried, logicalLines_of_carried hstart hcarried, List.map_cons,
        ← ih, Nat.add_right_comm start shift, Nat.add_right_comm start shift]
      rfl

theorem number_bounds (start : Nat) (lines : List Text) :
    ∀ line ∈ logicalLines (numberedFrom start lines),
      start < line.number ∧ line.number ≤ start + lines.length := by
  induction start, lines using blocks_induction with
  | nil start => simp [logicalLines_nil]
  | idle start line lines hidle ih =>
      intro logical hmem
      rw [logicalLines_of_idle hidle] at hmem
      have hbounds := ih logical hmem
      rw [List.length_cons]
      omega
  | block start line more after hstart hcarried ih =>
      intro logical hmem
      rw [logicalLines_of_carried hstart hcarried] at hmem
      rw [List.length_cons, List.length_append]
      rcases List.mem_cons.1 hmem with rfl | hmem
      · dsimp only
        omega
      · have hbounds := ih logical hmem
        omega

/-- Logical lines stand in the order of their numbers. -/
theorem pairwise_number_lt (start : Nat) (lines : List Text) :
    (logicalLines (numberedFrom start lines)).Pairwise (·.number < ·.number) := by
  induction start, lines using blocks_induction with
  | nil start =>
      rw [logicalLines_nil]
      exact .nil
  | idle start line lines hidle ih =>
      rw [logicalLines_of_idle hidle]
      exact ih
  | block start line more after hstart hcarried ih =>
      rw [logicalLines_of_carried hstart hcarried]
      refine .cons (fun logical hmem => ?_) ih
      have hbounds := number_bounds _ after logical hmem
      dsimp only
      omega

end LogicalLines

/-! ### The places of entries -/

section Places

variable {lines : List Text} {line : LogicalLine}

theorem mem_logicalLines_of_entryAt {before more after : List Text} {first : Text}
    (h : EntryAt lines before first more after) (start : Nat) :
    ⟨start + before.length + 1, joined (first :: more)⟩ ∈ logicalLines (numberedFrom start lines) := by
  obtain ⟨rfl, hclosed, hstart, hcarried⟩ := h
  rw [logicalLines_append _ _ _ hclosed, logicalLines_of_carried hstart hcarried]
  exact List.mem_append_right _ List.mem_cons_self

theorem exists_entryAt_of_mem (start : Nat) (lines : List Text) :
    ∀ line ∈ logicalLines (numberedFrom start lines), ∃ before first more after,
      EntryAt lines before first more after ∧
        line = ⟨start + before.length + 1, joined (first :: more)⟩ := by
  induction start, lines using blocks_induction with
  | nil start => simp [logicalLines_nil]
  | idle start line lines hidle ih =>
      intro logical hmem
      rw [logicalLines_of_idle hidle] at hmem
      obtain ⟨before, first, more, after, ⟨rfl, hclosed, hstart, hcarried⟩, rfl⟩ := ih logical hmem
      refine ⟨line :: before, first, more, after, ⟨rfl, ?_, hstart, hcarried⟩, ?_⟩
      · rw [openAfter_of_idle hidle, hclosed]
      · rw [List.length_cons, Nat.add_right_comm start 1, Nat.add_assoc start]
  | block start line more after hstart hcarried ih =>
      intro logical hmem
      rw [logicalLines_of_carried hstart hcarried] at hmem
      rcases List.mem_cons.1 hmem with rfl | hmem
      · exact ⟨[], line, more, after, ⟨rfl, rfl, hstart, hcarried⟩, rfl⟩
      · obtain ⟨before, first, more', after', ⟨rfl, hclosed, hstart', hcarried'⟩, rfl⟩ := ih logical hmem
        refine ⟨line :: (more ++ before), first, more', after', ⟨?_, ?_, hstart', hcarried'⟩, ?_⟩
        · rw [List.cons_append, List.append_assoc]
        · have hended := hcarried.openAfter_of_ne_nil (List.append_ne_nil_of_right_ne_nil _
            (List.cons_ne_nil first _))
          rw [openAfter_of_start hstart, openAfter_append, hended, hclosed]
        · rw [List.length_cons, List.length_append]
          congr 1
          omega

/-- The logical lines are the joined blocks of the text. -/
theorem mem_logicalLines_iff : line ∈ logicalLines (numbered lines) ↔ Holds lines line := by
  have hnumbered : numbered lines = numberedFrom 0 lines := rfl
  rw [hnumbered]
  constructor
  · intro h
    obtain ⟨before, first, more, after, hentry, rfl⟩ := exists_entryAt_of_mem 0 lines line h
    exact ⟨before, first, more, after, hentry, by rw [Nat.zero_add]⟩
  · rintro ⟨before, first, more, after, hentry, rfl⟩
    have hmem := mem_logicalLines_of_entryAt hentry 0
    rwa [Nat.zero_add] at hmem

end Places

end LayeredConfig.Properties
