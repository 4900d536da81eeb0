import LayeredConfig.Proofs.Text.Lines
import LayeredConfig.Text.PathList

/-! Path lists as they are written. Names stand between gaps, which are runs of separators of any kind and
length; a gap between two names is not empty, and those at the two ends may be. Whatever the gaps, a list is
read as its names, and every text is a writing of the names that are read from it. -/

namespace LayeredConfig.PathList

/-- A run of separators. -/
def IsGap (t : Text) : Prop := ∀ c ∈ t, isSeparator c = true

/-- A path list as it is written: a gap, and then each name with the gap after it. -/
structure Writing where
  before : Text
  rows : List (Text × Text)
  gap_before : IsGap before
  gaps : ∀ row ∈ rows, IsGap row.2
  isName : ∀ row ∈ rows, IsName row.1
  /-- Only the last name may end the text. -/
  apart : ∀ row ∈ rows.dropLast, row.2 ≠ []

namespace Writing

def names (writing : Writing) : List Text := writing.rows.map Prod.fst

def text (writing : Writing) : Text :=
  writing.before ++ writing.rows.flatMap fun row => row.1 ++ row.2

end Writing

section Reading

variable {s t gap name : Text} {c : Char}

theorem split_append_cons (h : isSeparator c = true) (s t : Text) :
    split (s ++ c :: t) = split s ++ split t := by
  rw [split, fields, Text.splitBy_append h, List.filter_append]
  rfl

theorem split_gap_append (h : IsGap gap) (t : Text) : split (gap ++ t) = split t := by
  induction gap with
  | nil => rfl
  | cons c gap ih =>
      obtain ⟨hc, hgap⟩ := List.forall_mem_cons.1 h
      rw [List.cons_append]
      calc split (c :: (gap ++ t)) = split [] ++ split (gap ++ t) := split_append_cons hc [] _
        _ = split t := ih hgap

theorem split_name (h : IsName name) : split name = [name] := by
  rw [split, fields, Text.splitBy_of_forall h.2]
  exact List.filter_cons_of_pos (by simpa using h.1)

/-- A name ends where a separator follows it, or with the text. -/
theorem split_name_append (hname : IsName name) (hgap : IsGap gap) (h : gap ≠ [] ∨ t = []) :
    split (name ++ gap ++ t) = name :: split t := by
  cases gap with
  | nil =>
      obtain rfl := h.resolve_left (by simp)
      rw [List.append_nil, List.append_nil, split_name hname]
      rfl
  | cons c gap =>
      obtain ⟨hc, hgap⟩ := List.forall_mem_cons.1 hgap
      rw [List.append_assoc, List.cons_append, split_append_cons hc, split_name hname,
        split_gap_append hgap, List.singleton_append]

theorem apart_cons_iff {row : Text × Text} {rows : List (Text × Text)} :
    (∀ other ∈ (row :: rows).dropLast, other.2 ≠ []) ↔
      (row.2 ≠ [] ∨ rows = []) ∧ ∀ other ∈ rows.dropLast, other.2 ≠ [] := by
  cases rows with
  | nil => simp
  | cons next rows =>
      rw [List.dropLast_cons_cons, List.forall_mem_cons]
      simp

theorem split_rows {rows : List (Text × Text)} (hgaps : ∀ row ∈ rows, IsGap row.2)
    (hnames : ∀ row ∈ rows, IsName row.1) (hapart : ∀ row ∈ rows.dropLast, row.2 ≠ []) :
    split (rows.flatMap fun row => row.1 ++ row.2) = rows.map Prod.fst := by
  induction rows with
  | nil => rfl
  | cons row rows ih =>
      obtain ⟨hgap, hgaps⟩ := List.forall_mem_cons.1 hgaps
      obtain ⟨hname, hnames⟩ := List.forall_mem_cons.1 hnames
      obtain ⟨hopen, hapart⟩ := apart_cons_iff.1 hapart
      have hend : row.2 ≠ [] ∨ (rows.flatMap fun row => row.1 ++ row.2) = [] :=
        hopen.imp_right fun hlast => by rw [hlast, List.flatMap_nil]
      rw [List.flatMap_cons, List.map_cons, split_name_append hname hgap hend, ih hgaps hnames hapart]

theorem Writing.split_text (writing : Writing) : split writing.text = writing.names := by
  rw [text, split_gap_append writing.gap_before, split_rows writing.gaps writing.isName writing.apart, names]

theorem split_intercalate {names : List Text} (hgap : IsGap gap) (hne : gap ≠ [])
    (hnames : ∀ name ∈ names, IsName name) : split (gap.intercalate names) = names := by
  induction names with
  | nil => rfl
  | cons name names ih =>
      obtain ⟨hname, hnames⟩ := List.forall_mem_cons.1 hnames
      cases names with
      | nil => rw [List.intercalate_singleton, split_name hname]
      | cons next names =>
          rw [List.intercalate_cons_cons, split_name_append hname hgap (.inl hne), ih hnames]

end Reading

section Texts

variable {c : Char}

/-- A separator in front belongs to the first gap. -/
def Writing.widen (writing : Writing) (h : isSeparator c = true) : Writing :=
  { writing with
    before := c :: writing.before
    gap_before := List.forall_mem_cons.2 ⟨h, writing.gap_before⟩ }

/-- A name in front, where it does not touch another one. -/
def Writing.cons (name : Text) (writing : Writing) (hname : IsName name)
    (hopen : writing.before ≠ [] ∨ writing.rows = []) : Writing where
  before := []
  rows := (name, writing.before) :: writing.rows
  gap_before := by simp [IsGap]
  gaps := List.forall_mem_cons.2 ⟨writing.gap_before, writing.gaps⟩
  isName := List.forall_mem_cons.2 ⟨hname, writing.isName⟩
  apart := apart_cons_iff.2 ⟨hopen, writing.apart⟩

theorem Writing.text_cons {name : Text} {writing : Writing} (hname : IsName name)
    (hopen : writing.before ≠ [] ∨ writing.rows = []) :
    (Writing.cons name writing hname hopen).text = name ++ writing.text := by
  simp [Writing.cons, Writing.text]

/-- A writing with a name in it is a gap, the name, and a writing that the name does not run into. -/
theorem Writing.exists_first (writing : Writing) (h : writing.rows ≠ []) :
    ∃ (name : Text) (rest : Writing), IsName name ∧ (rest.before ≠ [] ∨ rest.rows = []) ∧
      writing.text = writing.before ++ (name ++ rest.text) := by
  obtain ⟨before, rows, hbefore, hgaps, hnames, hapart⟩ := writing
  obtain ⟨⟨name, gap⟩, rows, rfl⟩ := List.exists_cons_of_ne_nil h
  obtain ⟨hgap, hgaps⟩ := List.forall_mem_cons.1 hgaps
  obtain ⟨hname, hnames⟩ := List.forall_mem_cons.1 hnames
  obtain ⟨hopen, hapart⟩ := apart_cons_iff.1 hapart
  exact ⟨name, ⟨gap, rows, hgap, hgaps, hnames, hapart⟩, hname, hopen, by simp [Writing.text]⟩

/-- Every text can be taken apart into names and gaps. -/
theorem exists_writing (t : Text) : ∃ writing : Writing, writing.text = t := by
  induction t with
  | nil => exact ⟨⟨[], [], by simp [IsGap], by simp, by simp, by simp⟩, rfl⟩
  | cons c t ih =>
      obtain ⟨writing, rfl⟩ := ih
      cases hc : isSeparator c with
      | true => exact ⟨writing.widen hc, rfl⟩
      | false =>
          by_cases hopen : writing.before ≠ [] ∨ writing.rows = []
          · have hname : IsName [c] := ⟨List.cons_ne_nil c [], by simpa using hc⟩
            exact ⟨.cons [c] writing hname hopen, Writing.text_cons hname hopen⟩
          · -- the text starts with a name, and the character makes it longer
            obtain ⟨hbefore, hrows⟩ := not_or.1 hopen
            obtain ⟨name, rest, hname, hopen, htext⟩ := writing.exists_first hrows
            have hlonger : IsName (c :: name) :=
              ⟨List.cons_ne_nil c name, List.forall_mem_cons.2 ⟨hc, hname.2⟩⟩
            refine ⟨.cons (c :: name) rest hlonger hopen, ?_⟩
            rw [Writing.text_cons hlonger hopen, htext, Decidable.not_not.1 hbefore]
            rfl

end Texts

/-- Path lists decode uniquely. Every writing of a list is read as its names; every text is a writing of the
names that are read from it; and names that are joined by any gap are read as they were. Separators are the
white space of ASCII, the comma and the semicolon. -/
theorem split_eq_names_of_writing :
    (∀ writing : Writing, split writing.text = writing.names) ∧
    (∀ t, ∃ writing : Writing, writing.text = t ∧ writing.names = split t) ∧
    (∀ t gap, IsGap gap → gap ≠ [] → split (gap.intercalate (split t)) = split t) ∧
    ∀ c, isSeparator c = true ↔ c ∈ [' ', '\t', '\n', '\x0c', '\r', ',', ';'] := by
  refine ⟨Writing.split_text, fun t => ?_, fun t gap hgap hne => ?_, fun c => ?_⟩
  · obtain ⟨writing, rfl⟩ := exists_writing t
    exact ⟨writing, rfl, writing.split_text.symm⟩
  · obtain ⟨writing, rfl⟩ := exists_writing t
    rw [writing.split_text]
    exact split_intercalate hgap hne (List.forall_mem_map.2 writing.isName)
  · simp [isSeparator, Text.isAsciiWhite, or_assoc]

/-- A blank outside ASCII belongs to the name. -/
example : split " ;a\u00a0b,\t;c".toList = ["a\u00a0b".toList, "c".toList] := by decide

end LayeredConfig.PathList
