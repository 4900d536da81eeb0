import LayeredConfig.Proofs.Outcome
import LayeredConfig.Proofs.Properties.Block
import LayeredConfig.Proofs.Text.Lines
import LayeredConfig.Properties.Parser

/-! Texts put together, and lines taken apart. Entries are read block by block, so where no entry is open a
text can be cut at a line feed and its parts can be read by themselves. And a block is put together from
what its lines give, so folding one of them, with a backslash, a line feed and blanks, does not change the
entry. In both only the numbers of the lines that come later differ, and those show in errors alone. -/

namespace LayeredConfig.Properties

/-- The error, with another line. -/
def ParseError.renumber (f : Nat → Nat) (error : ParseError) : ParseError :=
  { error with line := f error.line }

section Renumber

theorem map_renumber_congr {f g : Nat → Nat} {lines : List LogicalLine}
    (h : ∀ line ∈ lines, f line.number = g line.number) :
    lines.map (LogicalLine.renumber f) = lines.map (LogicalLine.renumber g) := by
  refine List.map_congr_left fun line hmem => ?_
  rw [LogicalLine.renumber, LogicalLine.renumber, h line hmem]

theorem map_renumber_of_fixed {f : Nat → Nat} {lines : List LogicalLine}
    (h : ∀ line ∈ lines, f line.number = line.number) : lines.map (LogicalLine.renumber f) = lines :=
  (map_renumber_congr (g := id) h).trans (List.map_id lines)

variable (f : Nat → Nat)

theorem parseEntry_renumber (line : LogicalLine) :
    parseEntry (line.renumber f) = (parseEntry line).mapError (.renumber f) := by
  unfold parseEntry
  dsimp only [LogicalLine.renumber]
  cases (do
    let key ← unescape (splitEntry line.text).1
    let value ← unescape (splitEntry line.text).2
    return (key, value) : Except EscapeError (Text × Text)) <;> rfl

/-- The numbers of logical lines show in an error only. -/
theorem mapM_parseEntry_renumber (lines : List LogicalLine) :
    (lines.map (.renumber f)).mapM parseEntry = (lines.mapM parseEntry).mapError (.renumber f) := by
  induction lines with
  | nil => rfl
  | cons line lines ih =>
      rw [List.map_cons, List.mapM_cons, List.mapM_cons, parseEntry_renumber, ih]
      cases parseEntry line with
      | error => rfl
      | ok entry => cases lines.mapM parseEntry <;> rfl

end Renumber

/-! ### Two texts -/

/-- How the last line of a text can leave no entry open. What looks like a comment is none where an entry is
open before it. -/
inductive EndsClosed (before : List Text) (last : Text) : Prop
  | blank (h : trimStart last = [])
  | comment {mark : Char} {rest : Text} (h : trimStart last = mark :: rest) (hmark : mark = '#' ∨ mark = '!')
      (hbefore : openAfter false before = false)
  | entry (h : continues last = false)

/-- The last line of a text, be it empty, leaves no entry open. -/
def Closed (t : Text) : Prop :=
  ∃ before last, Text.endedLines t = before ++ [last] ∧ EndsClosed before last

theorem Closed.openAfter {t : Text} (h : Closed t) : openAfter false (Text.endedLines t) = false := by
  obtain ⟨before, last, heq, hlast⟩ := h
  rw [heq, openAfter_append]
  cases hlast with
  | blank hblank =>
      have hwhole : continues last = false := by
        rw [← continues_trimStart, hblank]
        rfl
      simp [Properties.openAfter, hwhole]
  | comment hcomment hmark hbefore =>
      have hidle : isIdle (trimStart last) = true := by
        rw [hcomment]
        rcases hmark with rfl | rfl <;> rfl
      rw [hbefore, openAfter_of_idle hidle]
      rfl
  | entry hwhole => simp [Properties.openAfter, hwhole]

/-- The logical lines of a text. -/
theorem logicalLines_endedLines {t : Text} (h : t.getLast? ≠ some '\r') :
    logicalLines (numberedFrom 0 (Text.endedLines t)) = logicalLines (numberedFrom 0 (Text.lines t)) := by
  rcases Text.endedLines_eq_or h with heq | heq
  · rw [heq]
  · rw [heq, logicalLines_append_blank]

/-- Where no entry is open, a text is read part by part: the entries of the first part come before those of
the second, the first part's error comes before the second's, and an error of the second part is on a line
that is greater by the lines of the first. -/
theorem parse_append_lineFeed {a b : Text} (hreturn : a.getLast? ≠ some '\r') (hclosed : Closed a) :
    parse (a ++ '\n' :: b) = do
      let first ← parse a
      let second ← (parse b).mapError (.renumber (· + (a.count '\n' + 1)))
      return first ++ second := by
  have hlines : logicalLines (numbered (Text.lines (a ++ '\n' :: b))) =
      logicalLines (numbered (Text.lines a)) ++
        (logicalLines (numbered (Text.lines b))).map (.renumber (· + (a.count '\n' + 1))) := by
    have happend := logicalLines_append 0 (Text.endedLines a) (Text.lines b) hclosed.openAfter
    rw [Text.length_endedLines, logicalLines_endedLines hreturn, logicalLines_numberedFrom_add] at happend
    rw [Text.lines_append_lineFeed]
    exact happend
  rw [parse, hlines, List.mapM_append, mapM_parseEntry_renumber]
  rfl

/-- A comment that ends in a backslash leaves no entry open. The second text is wrong on its second line, which
is the fifth of both. -/
theorem parse_comment_append :
    Closed "x=1\\\n 2\n# note\\".toList ∧
      parse ("x=1\\\n 2\n# note\\".toList ++ '\n' :: "y=3\nz=\\u12".toList) = .error ⟨5, .truncated⟩ := by
  have hcomment : trimStart "# note\\".toList = '#' :: " note\\".toList := rfl
  have hclosed : Closed "x=1\\\n 2\n# note\\".toList :=
    ⟨["x=1\\".toList, " 2".toList], "# note\\".toList, by decide, .comment hcomment (.inl rfl) (by decide)⟩
  have hfirst : parse "x=1\\\n 2\n# note\\".toList = .ok [(['x'], ['1', '2'])] := by decide +kernel
  have hsecond : parse "y=3\nz=\\u12".toList = .error ⟨2, .truncated⟩ := by decide +kernel
  refine ⟨hclosed, ?_⟩
  rw [parse_append_lineFeed (by decide) hclosed, hfirst, hsecond]
  rfl

/-! ### Folded lines -/

/-- A place at which the line of an entry can be folded. The line is `head` and `tail`, and the fold stands
between them: a backslash, a line feed and blanks. -/
structure Fold where
  before : Text
  head : Text
  blanks : Text
  tail : Text
  after : Text
  /-- The line is one of its own, and belongs to no earlier entry. -/
  before_closed : before = [] ∨ ∃ t, before = t ++ ['\n'] ∧ openAfter false (Text.endedLines t) = false
  head_line : '\n' ∉ head
  /-- The line is neither blank nor a comment. -/
  head_starts : isIdle (trimStart head) = false
  head_whole : continues head = false
  blanks_blank : ∀ c ∈ blanks, isBlank c = true
  tail_line : '\n' ∉ tail
  tail_starts : ∃ c rest, tail = c :: rest ∧ isBlank c = false
  after_ended : after = [] ∨ ∃ t, after = '\n' :: t

namespace Fold

variable (fold : Fold)

/-- The text without the fold. -/
def flat : Text := fold.before ++ fold.head ++ fold.tail ++ fold.after

/-- The text with the fold. -/
def folded : Text :=
  fold.before ++ fold.head ++ '\\' :: '\n' :: fold.blanks ++ fold.tail ++ fold.after

/-- The number of the line that is folded. -/
def line : Nat := fold.before.count '\n' + 1

/-- What becomes of a line's number: the lines after the folded one come one later. -/
def moved (number : Nat) : Nat := if fold.line < number then number + 1 else number

/-- The lines before the fold are read by themselves. -/
theorem exists_linesBefore : ∃ lines, openAfter false lines = false ∧ lines.length = fold.before.count '\n' ∧
    ∀ t, Text.lines (fold.before ++ t) = lines ++ Text.lines t := by
  rcases fold.before_closed with hnil | ⟨t, ht, hclosed⟩
  · exact ⟨[], rfl, by rw [hnil]; rfl, fun t => by rw [hnil]; rfl⟩
  · refine ⟨Text.endedLines t, hclosed, ?_, fun s => ?_⟩
    · rw [Text.length_endedLines, ht, List.count_append]
      rfl
    · rw [ht, List.append_assoc, List.singleton_append, Text.lines_append_lineFeed]

/-- The line that the tail ends, whatever stands before it, and the lines after. -/
theorem exists_linesAfter : ∃ tail rest, trimStart tail = tail ∧
    ∀ s, '\n' ∉ s → Text.lines (s ++ fold.tail ++ fold.after) = (s ++ tail) :: rest := by
  obtain ⟨c, rest, htail, hblank⟩ := fold.tail_starts
  have hne : fold.tail ≠ [] := htail ▸ List.cons_ne_nil c rest
  have hline : ∀ s, '\n' ∉ s → '\n' ∉ s ++ fold.tail := fun s hs hmem =>
    (List.mem_append.1 hmem).elim hs fold.tail_line
  have hstart : ∀ t, t <+: fold.tail → trimStart t = t := by
    rintro t ⟨u, hu⟩
    cases t with
    | nil => rfl
    | cons d t =>
        rw [htail] at hu
        cases hu
        rw [trimStart, List.dropWhile_cons, hblank, if_neg Bool.false_ne_true]
  rcases fold.after_ended with hnil | ⟨t, ht⟩
  · refine ⟨fold.tail, [], hstart _ List.prefix_rfl, fun s hs => ?_⟩
    rw [hnil, List.append_nil, Text.lines_of_not_mem (hline s hs),
      if_neg (List.append_ne_nil_of_right_ne_nil s hne)]
  · refine ⟨Text.dropReturn fold.tail, Text.lines t, hstart _ (Text.dropReturn_isPrefix _), fun s hs => ?_⟩
    rw [ht, Text.lines_append_cons (hline s hs), Text.dropReturn_append hne]

/-- The lines of the two texts are the same but for one line, which is two lines in the folded text. -/
theorem exists_lines : ∃ before tail rest, openAfter false before = false ∧
    before.length + 1 = fold.line ∧ trimStart tail = tail ∧
    Text.lines fold.flat = before ++ (fold.head ++ tail) :: rest ∧
    Text.lines fold.folded = before ++ (fold.head ++ ['\\']) :: (fold.blanks ++ tail) :: rest := by
  obtain ⟨before, hclosed, hlength, hbefore⟩ := fold.exists_linesBefore
  obtain ⟨tail, rest, hstart, hafter⟩ := fold.exists_linesAfter
  have hblanks : '\n' ∉ fold.blanks := by
    intro hmem
    cases fold.blanks_blank _ hmem
  have hhead : '\n' ∉ fold.head ++ ['\\'] := by
    simp [fold.head_line]
  have hreturn : Text.dropReturn (fold.head ++ ['\\']) = fold.head ++ ['\\'] :=
    Text.dropReturn_append_cons (by decide) fold.head []
  refine ⟨before, tail, rest, hclosed, by rw [line, hlength], hstart, ?_, ?_⟩
  · rw [flat, List.append_assoc, List.append_assoc, hbefore, ← List.append_assoc, hafter _ fold.head_line]
  · have hassoc : fold.folded = fold.before ++ ((fold.head ++ ['\\']) ++ '\n' ::
        (fold.blanks ++ fold.tail ++ fold.after)) := by simp [folded]
    rw [hassoc, hbefore, Text.lines_append_cons hhead, hreturn, hafter _ hblanks]

theorem trimStart_head (t : Text) : trimStart (fold.head ++ t) = trimStart fold.head ++ t := by
  refine trimStart_append (fun hnil => ?_) t
  have hstarts := fold.head_starts
  rw [hnil] at hstarts
  cases hstarts

theorem isIdle_head (t : Text) : isIdle (trimStart (fold.head ++ t)) = false := by
  have hstarts := fold.head_starts
  rw [fold.trimStart_head]
  cases hhead : trimStart fold.head with
  | nil => rw [hhead] at hstarts; cases hstarts
  | cons c rest => rwa [hhead] at hstarts

theorem share_head (t : Text) : share (fold.head ++ t) = trimStart fold.head ++ strip t := by
  rw [share, fold.trimStart_head, strip_append (by rw [continues_trimStart, fold.head_whole])]

/-- The two lines of the fold give the entry what the one line gives. -/
theorem joined_folded {tail : Text} (hstart : trimStart tail = tail) (more : List Text) :
    joined ((fold.head ++ ['\\']) :: (fold.blanks ++ tail) :: more) = joined ((fold.head ++ tail) :: more) := by
  have hblanks : share (fold.blanks ++ tail) = strip tail := by
    rw [share, trimStart_append_of_blanks fold.blanks_blank, hstart]
  have hopen : strip ['\\'] = [] := rfl
  simp only [joined, List.flatMap_cons, share_head, hblanks, hopen, List.append_nil, List.append_assoc]

/-- The folded block is carried on as far as the flat one. -/
theorem carried_folded {tail : Text} {more after : List Text} (h : Carried (fold.head ++ tail) more after) :
    Carried (fold.head ++ ['\\']) ((fold.blanks ++ tail) :: more) after := by
  have hblanks : continues fold.blanks = false := by
    rw [← continues_trimStart, ← List.append_nil fold.blanks, trimStart_append_of_blanks fold.blanks_blank]
    rfl
  refine .next ?_ (h.of_continues_eq ?_)
  · rw [continues_append fold.head_whole]
    rfl
  · rw [continues_append fold.head_whole, continues_append hblanks]

/-- The folded text has the logical lines of the flat one, some of them on a later line. -/
theorem logicalLines_folded : logicalLines (numberedFrom 0 (Text.lines fold.folded)) =
    (logicalLines (numberedFrom 0 (Text.lines fold.flat))).map (.renumber fold.moved) := by
  obtain ⟨before, tail, rest, hclosed, hline, hstart, hflat, hfolded⟩ := fold.exists_lines
  obtain ⟨more, after, rfl, hcarried⟩ := exists_carried (fold.head ++ tail) rest
  have hbefore : (logicalLines (numberedFrom 0 before)).map (.renumber fold.moved) =
      logicalLines (numberedFrom 0 before) := by
    refine map_renumber_of_fixed fun line hmem => ?_
    have hbounds := number_bounds 0 before line hmem
    exact if_neg (by omega)
  have hafter : (logicalLines (numberedFrom (0 + before.length + (more.length + 1)) after)).map
      (.renumber fold.moved) =
      logicalLines (numberedFrom (0 + before.length + (more.length + 1) + 1) after) := by
    rw [logicalLines_numberedFrom_add _ 1]
    refine map_renumber_congr fun line hmem => ?_
    have hbounds := number_bounds _ after line hmem
    exact if_pos (by omega)
  have hhere : fold.moved (0 + before.length + 1) = 0 + before.length + 1 := if_neg (by omega)
  have hfirst := fold.isIdle_head tail
  have hsecond := fold.isIdle_head ['\\']
  rw [hflat, hfolded, logicalLines_append _ _ _ hclosed, logicalLines_append _ _ _ hclosed,
    logicalLines_of_carried hfirst hcarried, ← List.cons_append,
    logicalLines_of_carried hsecond (fold.carried_folded hcarried), fold.joined_folded hstart, List.map_append,
    List.map_cons, hbefore, hafter, LogicalLine.renumber, hhere]
  rfl

end Fold

/-- Folding a line changes no entry and no cause of an error. An error's line is one greater exactly when it is
after the folded one. -/
theorem parse_folded (fold : Fold) :
    parse fold.folded = (parse fold.flat).mapError (.renumber fold.moved) :=
  (congrArg (List.mapM parseEntry) fold.logicalLines_folded).trans (mapM_parseEntry_renumber fold.moved _)

/-- The fold stands between the digits of an escape, which is read all the same. The third line is wrong, and is
now the fourth. -/
theorem parse_folded_escape :
    parse "x=1\nk=\\u00\\\n \t41\ny=\\u12".toList = .error ⟨4, .truncated⟩ := by
  have hclosed : openAfter false (Text.endedLines "x=1".toList) = false := by decide
  let fold : Fold :=
    { before := "x=1\n".toList, head := "k=\\u00".toList, blanks := " \t".toList, tail := "41".toList,
      after := "\ny=\\u12".toList
      before_closed := .inr ⟨_, rfl, hclosed⟩
      head_line := by decide
      head_starts := by decide
      head_whole := by decide
      blanks_blank := by simp [isBlank]
      tail_line := by decide
      tail_starts := ⟨'4', ['1'], rfl, rfl⟩
      after_ended := .inr ⟨_, rfl⟩ }
  have hflat : parse "x=1\nk=\\u0041\ny=\\u12".toList = .error ⟨3, .truncated⟩ := by decide +kernel
  exact (parse_folded fold).trans (congrArg (Except.mapError _) hflat)

end LayeredConfig.Properties
