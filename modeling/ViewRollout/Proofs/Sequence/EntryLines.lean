import ViewRollout.Proofs.Text.Lines
import ViewRollout.Sequence.Basic

/-!
# The lines that entries are made of

`parse_keeps_lines`: a sequence that is read from a text has the lines of the
text that are not blank, trimmed, in their order and no others. An entry is a
run of comment lines with the patch directly below it, or such a run that a
blank line or the end of the text closes, and the run is never a part of a
longer one.
-/

namespace ViewRollout.Sequence

open Text

variable {rows before behind rest comments : List (List Char)} {line name : List Char}
variable {entry : Entry} {entries front back : List Entry}

def trimmedLines (text : String) : List (List Char) :=
  (Text.lines text.toList).map trim

def inked (rows : List (List Char)) : List (List Char) :=
  rows.filter (· ≠ [])

def isComment (line : List Char) : Bool :=
  line.head? == some '#'

def Entry.commentLines (entry : Entry) : List (List Char) :=
  match entry.comment with
  | some comment => comment.toList.splitOn '\n'
  | none => []

/-- The lines of an entry: those of its comment, and its patch. -/
def Entry.lines (entry : Entry) : List (List Char) :=
  entry.commentLines ++ (entry.filename.map String.toList).toList

/-- A line that names a patch. -/
structure IsPatch (line : List Char) : Prop where
  ne_nil : line ≠ []
  not_comment : isComment line = false
  trimmed : trim line = line
  one_line : '\n' ∉ line

/-- The comment of an entry consists of comment lines, which are trimmed as its patch is, and it
has the one or the other. -/
structure Entry.WellFormed (entry : Entry) : Prop where
  comment : ∀ line ∈ entry.commentLines, isComment line = true ∧ trim line = line
  filename : ∀ name ∈ entry.filename, IsPatch name.toList
  present : entry.comment.isSome = true ∨ entry.filename.isSome = true

/-- The lines begin with the entry: with a run of comment lines that ends in the entry's patch or,
if it has none, in a blank line or the end. -/
inductive Entry.Leads : Entry → (rows rest : List (List Char)) → Prop where
  | patch {comments rest : List (List Char)} {name : List Char} :
      (∀ line ∈ comments, isComment line = true) → name ≠ [] → isComment name = false →
      Leads ⟨commentOf comments, some (String.ofList name)⟩ (comments ++ name :: rest) rest
  | closed {comments rest : List (List Char)} :
      (∀ line ∈ comments, isComment line = true) → comments ≠ [] →
      Leads ⟨commentOf comments, none⟩ (comments ++ [] :: rest) rest
  | last {comments : List (List Char)} :
      (∀ line ∈ comments, isComment line = true) → comments ≠ [] →
      Leads ⟨commentOf comments, none⟩ comments []

/-- The lines are blank lines and these entries. -/
inductive Holds : (rows : List (List Char)) → List Entry → Prop where
  | done : Holds [] []
  | blank {rows : List (List Char)} {entries : List Entry} :
      Holds rows entries → Holds ([] :: rows) entries
  | entry {rows rest : List (List Char)} {entry : Entry} {entries : List Entry} :
      entry.Leads rows rest → Holds rest entries → Holds rows (entry :: entries)

/-- Lines as they are read: trimmed, and without newlines. -/
def Clean (rows : List (List Char)) : Prop :=
  ∀ line ∈ rows, trim line = line ∧ '\n' ∉ line

/-- The entry stands among the lines, with these lines that are not blank above and below it. No
comment line stands directly above it. -/
def Entry.StandsIn (entry : Entry) (rows above below : List (List Char)) : Prop :=
  ∃ before behind rest, rows = before ++ behind ∧ before.getLast?.any isComment = false ∧
    entry.Leads behind rest ∧ inked before = above ∧ inked rest = below

/-- The sequence has the entry, and the entries before and after it have these lines. -/
def HasBetween (s : Sequence) (above : List (List Char)) (entry : Entry)
    (below : List (List Char)) : Prop :=
  ∃ front back, s.entries = front ++ entry :: back ∧ front.flatMap Entry.lines = above ∧
    back.flatMap Entry.lines = below

-- ---------------------------------------------------------------------------
-- Comments
-- ---------------------------------------------------------------------------

theorem ne_nil_of_isComment (h : isComment line = true) : line ≠ [] := by
  rintro rfl
  cases h

theorem commentOf_commentLines (entry : Entry) : commentOf entry.commentLines = entry.comment := by
  rw [Entry.commentLines]
  cases entry.comment with
  | none => rfl
  | some comment =>
    dsimp only
    rw [commentOf, if_neg (List.splitOn_ne_nil '\n' comment.toList), joinLines_splitOn,
      String.ofList_toList]

theorem commentLines_commentOf (h : Clean comments) (filename : Option String) :
    Entry.commentLines ⟨commentOf comments, filename⟩ = comments := by
  rw [Entry.commentLines, commentOf]
  by_cases hne : comments = []
  · rw [if_pos hne, hne]
  · rw [if_neg hne]
    dsimp only
    rw [String.toList_ofList, splitOn_joinLines hne fun line hline => (h line hline).2]

theorem lines_commentOf (h : Clean comments) (filename : Option String) :
    Entry.lines ⟨commentOf comments, filename⟩ =
      comments ++ (filename.map String.toList).toList := by
  rw [Entry.lines, commentLines_commentOf h]

theorem inked_append (before behind : List (List Char)) :
    inked (before ++ behind) = inked before ++ inked behind :=
  List.filter_append ..

theorem inked_comments (hc : ∀ line ∈ comments, isComment line = true) :
    inked comments = comments :=
  List.filter_eq_self.2 fun line hline => decide_eq_true (ne_nil_of_isComment (hc line hline))

-- ---------------------------------------------------------------------------
-- Reading lines
-- ---------------------------------------------------------------------------

theorem entriesFrom_comments (hc : ∀ line ∈ comments, isComment line = true)
    (pending rest : List (List Char)) :
    entriesFrom pending (comments ++ rest) = entriesFrom (pending ++ comments) rest := by
  induction comments generalizing pending with
  | nil => simp
  | cons line comments ih =>
    obtain ⟨hline, hcomments⟩ := List.forall_mem_cons.1 hc
    have hhash : line.head? = some '#' := by simpa [isComment] using hline
    rw [List.cons_append, entriesFrom, if_neg (ne_nil_of_isComment hline), if_pos hhash,
      ih hcomments, List.append_assoc]
    rfl

theorem entriesFrom_of_leads (h : entry.Leads rows rest) :
    entriesFrom [] rows = entry :: entriesFrom [] rest := by
  cases h with
  | @patch comments rest name hc hne hname =>
    have hhash : ¬name.head? = some '#' := by simpa [isComment] using hname
    rw [entriesFrom_comments hc, entriesFrom, if_neg hne, if_neg hhash, List.nil_append]
  | closed hc hne =>
    rw [entriesFrom_comments hc, entriesFrom, if_pos rfl, List.nil_append, commentEntry, if_neg hne]
    rfl
  | last hc hne =>
    have hcomments := entriesFrom_comments hc [] []
    rw [List.append_nil, List.nil_append] at hcomments
    rw [hcomments, entriesFrom, commentEntry, if_neg hne]
    rfl

theorem Holds.entriesFrom_eq (h : Holds rows entries) : entriesFrom [] rows = entries := by
  induction h with
  | done => rfl
  | blank _ ih => rw [entriesFrom, if_pos rfl, ih]; rfl
  | entry hlead _ ih => rw [entriesFrom_of_leads hlead, ih]

/-- Reading lines below some comment lines takes all of them apart. -/
theorem holds_entriesFrom (hc : ∀ line ∈ comments, isComment line = true)
    (rows : List (List Char)) : Holds (comments ++ rows) (entriesFrom comments rows) := by
  -- What is pending is a run of comment lines; each case ends the run or adds a line to it.
  fun_induction entriesFrom comments rows with
  | case1 comments =>
    rw [List.append_nil]
    by_cases hnil : comments = []
    · subst hnil
      exact .done
    · rw [commentEntry, if_neg hnil]
      exact .entry (.last hc hnil) .done
  | case2 comments rest ih =>
    have hrest : Holds rest (entriesFrom [] rest) := ih (by simp)
    by_cases hnil : comments = []
    · subst hnil
      exact .blank hrest
    · rw [commentEntry, if_neg hnil]
      exact .entry (.closed hc hnil) hrest
  | case3 comments line rest hne hhash ih =>
    have hline : isComment line = true := by simpa [isComment] using hhash
    rw [← List.singleton_append, ← List.append_assoc]
    exact ih (List.forall_mem_append.2 ⟨hc, List.forall_mem_singleton.2 hline⟩)
  | case4 comments line rest hne hhash ih =>
    have hline : isComment line = false := by simpa [isComment] using hhash
    exact .entry (.patch hc hne hline) (ih (by simp))

theorem holds_entriesFrom_nil (rows : List (List Char)) : Holds rows (entriesFrom [] rows) := by
  have hc : ∀ line ∈ ([] : List (List Char)), isComment line = true := by simp
  exact holds_entriesFrom hc rows

theorem holds_parse (text : String) : Holds (trimmedLines text) (parse text).entries :=
  holds_entriesFrom_nil (trimmedLines text)

-- ---------------------------------------------------------------------------
-- What the entries have of the lines
-- ---------------------------------------------------------------------------

theorem clean_append_iff : Clean (before ++ behind) ↔ Clean before ∧ Clean behind :=
  List.forall_mem_append

theorem clean_cons_iff : Clean (line :: rest) ↔ (trim line = line ∧ '\n' ∉ line) ∧ Clean rest :=
  List.forall_mem_cons

theorem clean_trimmedLines (text : String) : Clean (trimmedLines text) := by
  intro line hline
  obtain ⟨raw, hraw, rfl⟩ := List.mem_map.1 hline
  have hnewline := no_newline_linesFrom List.not_mem_nil text.toList raw hraw
  exact ⟨trim_trim raw, fun h => hnewline (mem_of_mem_trim h)⟩

theorem Entry.Leads.clean_rest (h : entry.Leads rows rest) (hclean : Clean rows) : Clean rest := by
  cases h with
  | patch => exact (clean_cons_iff.1 (clean_append_iff.1 hclean).2).2
  | closed => exact (clean_cons_iff.1 (clean_append_iff.1 hclean).2).2
  | last => simp [Clean]

theorem Entry.Leads.lines_append (h : entry.Leads rows rest) (hclean : Clean rows) :
    entry.lines ++ inked rest = inked rows := by
  cases h with
  | patch hc hne =>
    rw [lines_commentOf (clean_append_iff.1 hclean).1, inked_append, inked_comments hc]
    simp [inked, hne]
  | closed hc =>
    rw [lines_commentOf (clean_append_iff.1 hclean).1, inked_append, inked_comments hc]
    simp [inked]
  | last hc =>
    rw [lines_commentOf hclean, inked_comments hc]
    simp [inked]

theorem Holds.lines_eq (h : Holds rows entries) (hclean : Clean rows) :
    entries.flatMap Entry.lines = inked rows := by
  induction h with
  | done => rfl
  | blank _ ih => exact ih (clean_cons_iff.1 hclean).2
  | entry hlead _ ih =>
    rw [List.flatMap_cons, ih (hlead.clean_rest hclean), hlead.lines_append hclean]

theorem wellFormed_commentOf {filename : Option String} (hclean : Clean comments)
    (hc : ∀ line ∈ comments, isComment line = true)
    (hname : ∀ name ∈ filename, IsPatch name.toList)
    (hpresent : comments ≠ [] ∨ filename.isSome = true) :
    Entry.WellFormed ⟨commentOf comments, filename⟩ where
  comment line hline := by
    rw [commentLines_commentOf hclean] at hline
    exact ⟨hc line hline, (hclean line hline).1⟩
  filename := hname
  present := hpresent.imp_left fun hne => by rw [commentOf, if_neg hne]; rfl

theorem Entry.Leads.wellFormed (h : entry.Leads rows rest) (hclean : Clean rows) :
    entry.WellFormed := by
  cases h with
  | patch hc hne hname =>
    obtain ⟨hcomments, hline, -⟩ := (clean_append_iff.1 hclean).imp_right clean_cons_iff.1
    refine wellFormed_commentOf hcomments hc ?_ (.inr rfl)
    rintro _ ⟨⟩
    rw [String.toList_ofList]
    exact ⟨hne, hname, hline.1, hline.2⟩
  | closed hc hne =>
    exact wellFormed_commentOf (clean_append_iff.1 hclean).1 hc (by simp) (.inl hne)
  | last hc hne => exact wellFormed_commentOf hclean hc (by simp) (.inl hne)

theorem Holds.wellFormed (h : Holds rows entries) (hclean : Clean rows) :
    ∀ entry ∈ entries, entry.WellFormed := by
  induction h with
  | done => simp
  | blank _ ih => exact ih (clean_cons_iff.1 hclean).2
  | entry hlead _ ih =>
    exact List.forall_mem_cons.2 ⟨hlead.wellFormed hclean, ih (hlead.clean_rest hclean)⟩

-- ---------------------------------------------------------------------------
-- Where the entries stand
-- ---------------------------------------------------------------------------

theorem any_getLast?_append_cons (before : List (List Char)) (hline : isComment line = false)
    (hrest : rest.getLast?.any isComment = false) :
    (before ++ line :: rest).getLast?.any isComment = false := by
  rw [List.getLast?_append, List.getLast?_cons]
  cases hlast : rest.getLast? with
  | none => exact hline
  | some last => rwa [hlast] at hrest

theorem any_getLast?_of_append_cons (before : List (List Char))
    (h : (before ++ line :: rest).getLast?.any isComment = false) :
    rest.getLast?.any isComment = false := by
  rw [List.getLast?_append, List.getLast?_cons] at h
  cases hlast : rest.getLast? with
  | none => rfl
  | some last => rwa [hlast] at h

theorem any_getLast?_comments (hc : ∀ line ∈ comments, isComment line = true)
    (hne : comments ≠ []) : comments.getLast?.any isComment = true := by
  rw [List.getLast?_eq_some_getLast hne]
  exact hc _ (List.getLast_mem hne)

theorem Entry.Leads.ne_nil (h : entry.Leads rows rest) : rows ≠ [] := by
  cases h with
  | patch => simp
  | closed => simp
  | last _ hne => exact hne

/-- An entry that is led by lines is led by the same lines without what stands behind a place that
comes after the entry. -/
theorem Entry.Leads.exists_front (h : entry.Leads rows (before ++ behind)) (hbehind : behind ≠ [])
    (hbefore : before.getLast?.any isComment = false) :
    ∃ front, rows = front ++ behind ∧ front.getLast?.any isComment = false ∧
      entry.Leads front before := by
  generalize hrest : before ++ behind = rest at h
  cases h with
  | @patch comments _ name hc hne hname =>
    subst hrest
    exact ⟨comments ++ name :: before, by simp, any_getLast?_append_cons _ hname hbefore,
      .patch hc hne hname⟩
  | @closed comments _ hc hne =>
    subst hrest
    exact ⟨comments ++ [] :: before, by simp, any_getLast?_append_cons _ rfl hbefore,
      .closed hc hne⟩
  | last => exact absurd (List.append_eq_nil_iff.1 hrest).2 hbehind

theorem Entry.Leads.append (h : entry.Leads before rest)
    (hbefore : before.getLast?.any isComment = false) (behind : List (List Char)) :
    entry.Leads (before ++ behind) (rest ++ behind) ∧ rest.getLast?.any isComment = false := by
  cases h with
  | patch hc hne hname =>
    rw [List.append_assoc]
    exact ⟨.patch hc hne hname, any_getLast?_of_append_cons _ hbefore⟩
  | closed hc hne =>
    rw [List.append_assoc]
    exact ⟨.closed hc hne, any_getLast?_of_append_cons _ hbefore⟩
  | last hc hne => rw [any_getLast?_comments hc hne] at hbefore; cases hbefore

theorem Holds.append (h : Holds before front) (hbefore : before.getLast?.any isComment = false)
    (hback : Holds behind back) : Holds (before ++ behind) (front ++ back) := by
  induction h with
  | done => exact hback
  | blank _ ih => exact .blank (ih (any_getLast?_of_append_cons [] hbefore))
  | entry hlead _ ih =>
    obtain ⟨hlead, hrest⟩ := hlead.append hbefore behind
    exact .entry hlead (ih hrest)

theorem Holds.exists_leads (h : Holds rows (front ++ entry :: back)) :
    ∃ before behind rest, rows = before ++ behind ∧ before.getLast?.any isComment = false ∧
      entry.Leads behind rest ∧ Holds before front ∧ Holds rest back := by
  generalize hentries : front ++ entry :: back = entries at h
  induction h generalizing front with
  | done => simp at hentries
  | blank _ ih =>
    obtain ⟨before, behind, rest, rfl, hbefore, hlead, hfront, hback⟩ := ih hentries
    exact ⟨[] :: before, behind, rest, rfl, any_getLast?_append_cons [] rfl hbefore,
      hlead, .blank hfront, hback⟩
  | @entry rows rest led entries hled hrest ih =>
    -- The entry is the one that is looked for, or it goes to the lines before that one.
    cases front with
    | nil =>
      obtain ⟨rfl, rfl⟩ := List.cons.inj hentries
      exact ⟨[], rows, rest, rfl, rfl, hled, .done, hrest⟩
    | cons first front =>
      obtain ⟨rfl, htail⟩ := List.cons.inj hentries
      obtain ⟨before, behind, rest, rfl, hbefore, hlead, hfront, hback⟩ := ih htail
      obtain ⟨lines, rfl, hlines, hled⟩ := hled.exists_front hlead.ne_nil hbefore
      exact ⟨lines, behind, rest, rfl, hlines, hlead, .entry hled hfront, hback⟩

theorem hasBetween_parse_iff (text : String) (above below : List (List Char)) :
    (parse text).HasBetween above entry below ↔
      entry.StandsIn (trimmedLines text) above below := by
  have hclean := clean_trimmedLines text
  constructor
  · rintro ⟨front, back, hentries, rfl, rfl⟩
    have hholds := hentries ▸ holds_parse text
    obtain ⟨before, behind, rest, hrows, hbefore, hlead, hfront, hback⟩ := hholds.exists_leads
    obtain ⟨hcleanBefore, hcleanBehind⟩ := clean_append_iff.1 (hrows ▸ hclean)
    exact ⟨before, behind, rest, hrows, hbefore, hlead, (hfront.lines_eq hcleanBefore).symm,
      (hback.lines_eq (hlead.clean_rest hcleanBehind)).symm⟩
  · rintro ⟨before, behind, rest, hrows, hbefore, hlead, rfl, rfl⟩
    obtain ⟨hcleanBefore, hcleanBehind⟩ := clean_append_iff.1 (hrows ▸ hclean)
    have hfront := holds_entriesFrom_nil before
    have hback := holds_entriesFrom_nil rest
    have hall := hfront.append hbefore (.entry hlead hback)
    rw [← hrows] at hall
    exact ⟨_, _, hall.entriesFrom_eq, hfront.lines_eq hcleanBefore,
      hback.lines_eq (hlead.clean_rest hcleanBehind)⟩

theorem inked_trimmedPieces (text : String) :
    inked (trimmedPieces text.toList) = inked (trimmedLines text) := by
  rcases trimmedPieces_eq text.toList with h | h
  · rw [h, trimmedLines]
  · rw [h, inked_append, trimmedLines]
    simp [inked]

/-- Parsing loses no line and makes none up: the lines of the entries are the trimmed lines of the
text, whether these end in newlines alone or in carriage returns and newlines, without the blank
ones. Each entry is well formed. The entries, with the lines above and below them, are the runs of
comment lines below no other comment line that a patch, a blank line or the end follows. -/
theorem parse_keeps_lines (text : String) :
    (parse text).entries.flatMap Entry.lines = inked (trimmedLines text) ∧
      inked (trimmedLines text) = inked (trimmedPieces text.toList) ∧
      (∀ entry ∈ (parse text).entries, entry.WellFormed) ∧
      ∀ above entry below, (parse text).HasBetween above entry below ↔
        entry.StandsIn (trimmedLines text) above below := by
  have hclean := clean_trimmedLines text
  exact ⟨(holds_parse text).lines_eq hclean, (inked_trimmedPieces text).symm,
    (holds_parse text).wellFormed hclean, fun above entry below =>
      hasBetween_parse_iff text above below⟩

-- A comment that a blank line closes does not belong to the patch below.
example : (parse "# one\n\n # two\r\n\t# three \nfirst.sql\n").entries =
    [⟨some "# one", none⟩, ⟨some "# two\n# three", some "first.sql"⟩] := by decide

end ViewRollout.Sequence
