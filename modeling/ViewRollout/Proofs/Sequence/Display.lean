import ViewRollout.Proofs.Sequence.EntryLines
import ViewRollout.Proofs.Sequence.HistoryRows

/-!
# Entries as text

`display_reads_back`: the entries of a sequence, put down with a blank line
behind each, are read as the same sequence again. A list of them has no blank
lines, so a comment may be read as part of the comment of the patch below it;
but the patches and the comment lines stay the same.
-/

namespace ViewRollout.Sequence

open Files Text

variable {rows : List (List Char)} {line : List Char} {entry : Entry} {entries : List Entry}
variable {s other : Sequence} {text : String}

/-- The entries as text, with the ending behind each. -/
def written (ending : String) (entries : List Entry) : String :=
  String.join (entries.map fun entry => entry.display ++ ending)

def listing (s : Sequence) : String :=
  if s.isEmpty then "No entries\n" else written "\n" s.entries

def commentLines (s : Sequence) : List (List Char) :=
  s.entries.flatMap Entry.commentLines

-- ---------------------------------------------------------------------------
-- The lines of an entry's text
-- ---------------------------------------------------------------------------

theorem Entry.WellFormed.isPatch_of_mem (h : entry.WellFormed)
    (hline : line ∈ (entry.filename.map String.toList).toList) : IsPatch line := by
  obtain ⟨name, hname, rfl⟩ : ∃ name, entry.filename = some name ∧ name.toList = line := by
    simpa using hline
  exact h.filename name hname

theorem Entry.WellFormed.of_mem_lines (h : entry.WellFormed) (hline : line ∈ entry.lines) :
    line ≠ [] ∧ trim line = line := by
  rcases List.mem_append.1 hline with hcomment | hname
  · obtain ⟨hhash, htrim⟩ := h.comment line hcomment
    exact ⟨ne_nil_of_isComment hhash, htrim⟩
  · have hpatch := h.isPatch_of_mem hname
    exact ⟨hpatch.ne_nil, hpatch.trimmed⟩

theorem toList_newline : "\n".toList = ['\n'] := rfl

theorem splitOn_display (h : entry.WellFormed) :
    entry.display.toList.splitOn '\n' = entry.lines := by
  obtain ⟨comment, filename⟩ := entry
  cases comment with
  | none =>
    cases filename with
    | none => simpa using h.present
    | some name => exact List.splitOn_eq_singleton (h.filename name rfl).one_line
  | some comment =>
    cases filename with
    | none => exact (List.append_nil _).symm
    | some name =>
      have hname := List.splitOn_eq_singleton (h.filename name rfl).one_line
      rw [Entry.display, String.toList_append, String.toList_append, toList_newline,
        List.append_assoc, List.singleton_append, List.splitOn_append_cons_self, hname]
      rfl

theorem trimmedPieces_display (h : entry.WellFormed) (rest : List Char) :
    trimmedPieces (entry.display.toList ++ '\n' :: rest) = entry.lines ++ trimmedPieces rest := by
  have htrim : entry.lines.map trim = entry.lines :=
    (List.map_congr_left fun line hline => (h.of_mem_lines hline).2).trans (List.map_id _)
  rw [trimmedPieces, List.splitOn_append_cons_self, splitOn_display h, List.map_append, htrim,
    trimmedPieces]

theorem toList_written_cons (ending : String) (entry : Entry) (entries : List Entry) :
    (written ending (entry :: entries)).toList =
      entry.display.toList ++ (ending.toList ++ (written ending entries).toList) := by
  rw [written, List.map_cons, String.join_cons, String.toList_append, String.toList_append,
    List.append_assoc, written]

-- ---------------------------------------------------------------------------
-- Blank lines between the entries
-- ---------------------------------------------------------------------------

theorem trimmedPieces_newline (rest : List Char) :
    trimmedPieces ('\n' :: rest) = [] :: trimmedPieces rest := by
  rw [trimmedPieces, ← List.nil_append ('\n' :: rest), List.splitOn_append_cons_self]
  rfl

theorem entriesFrom_concat_blank (comments rows : List (List Char)) :
    entriesFrom comments (rows ++ [[]]) = entriesFrom comments rows := by
  fun_induction entriesFrom comments rows with
  | case1 comments => simp [entriesFrom, commentEntry]
  | case2 comments rest ih => rw [List.cons_append, entriesFrom, if_pos rfl, ih]
  | case3 comments line rest hne hhash ih =>
    rw [List.cons_append, entriesFrom, if_neg hne, if_pos hhash, ih]
  | case4 comments line rest hne hhash ih =>
    rw [List.cons_append, entriesFrom, if_neg hne, if_neg hhash, ih]

theorem parse_of_holds (h : Holds (trimmedPieces text.toList) entries) :
    parse text = ⟨entries⟩ := by
  rw [parse, ← h.entriesFrom_eq]
  rcases trimmedPieces_eq text.toList with heq | heq
  · rw [heq]
  · rw [heq, entriesFrom_concat_blank]

theorem Entry.WellFormed.holds (h : entry.WellFormed) (hrows : Holds rows entries) :
    Holds (entry.lines ++ [] :: rows) (entry :: entries) := by
  have hc : ∀ line ∈ entry.commentLines, isComment line = true :=
    fun line hline => (h.comment line hline).1
  have hcomment := commentOf_commentLines entry
  rw [Entry.lines]
  cases hname : entry.filename with
  | some name =>
    have hpatch := h.filename name hname
    have hlead : Entry.Leads ⟨commentOf entry.commentLines, some (String.ofList name.toList)⟩
        (entry.commentLines ++ name.toList :: [] :: rows) ([] :: rows) :=
      .patch hc hpatch.ne_nil hpatch.not_comment
    rw [hcomment, String.ofList_toList, ← hname] at hlead
    rw [List.append_assoc]
    exact .entry hlead (.blank hrows)
  | none =>
    have hne : entry.commentLines ≠ [] := by
      intro hnil
      have hsome : entry.comment.isSome = true := by simpa [hname] using h.present
      rw [← hcomment, hnil] at hsome
      cases hsome
    have hlead : Entry.Leads ⟨commentOf entry.commentLines, none⟩
        (entry.commentLines ++ [] :: rows) rows := .closed hc hne
    rw [hcomment, ← hname] at hlead
    rw [List.append_assoc]
    exact .entry hlead hrows

theorem holds_written (hwf : ∀ entry ∈ entries, entry.WellFormed) :
    Holds (trimmedPieces (written "\n\n" entries).toList) entries := by
  induction entries with
  | nil => exact .blank .done
  | cons entry entries ih =>
    obtain ⟨hentry, hentries⟩ := List.forall_mem_cons.1 hwf
    have hending : "\n\n".toList = ['\n', '\n'] := rfl
    rw [toList_written_cons, hending, List.cons_append, trimmedPieces_display hentry,
      List.singleton_append, trimmedPieces_newline]
    exact hentry.holds (ih hentries)

-- ---------------------------------------------------------------------------
-- Lists
-- ---------------------------------------------------------------------------

theorem trimmedPieces_written (hwf : ∀ entry ∈ entries, entry.WellFormed) :
    trimmedPieces (written "\n" entries).toList = entries.flatMap Entry.lines ++ [[]] := by
  induction entries with
  | nil => rfl
  | cons entry entries ih =>
    obtain ⟨hentry, hentries⟩ := List.forall_mem_cons.1 hwf
    rw [toList_written_cons, toList_newline, List.singleton_append, trimmedPieces_display hentry,
      ih hentries, List.flatMap_cons, List.append_assoc]

theorem Entry.WellFormed.filter_lines (h : entry.WellFormed) :
    entry.lines.filter isComment = entry.commentLines ∧
      entry.lines.filter (!isComment ·) = (entry.filename.map String.toList).toList := by
  have hcomment : ∀ line ∈ entry.commentLines, isComment line = true :=
    fun line hline => (h.comment line hline).1
  have hname : ∀ line ∈ (entry.filename.map String.toList).toList, isComment line = false :=
    fun line hline => (h.isPatch_of_mem hline).not_comment
  rw [Entry.lines, List.filter_append, List.filter_append]
  constructor
  · rw [List.filter_eq_self.2 hcomment, List.filter_eq_nil_iff.2 (by simpa using hname),
      List.append_nil]
  · rw [List.filter_eq_nil_iff.2 (by simpa using hcomment),
      List.filter_eq_self.2 (by simpa using hname), List.nil_append]

theorem filter_lines (hwf : ∀ entry ∈ s.entries, entry.WellFormed) :
    (s.entries.flatMap Entry.lines).filter isComment = s.commentLines ∧
      (s.entries.flatMap Entry.lines).filter (!isComment ·) = s.filenames.map String.toList := by
  obtain ⟨entries⟩ := s
  induction entries with
  | nil => exact ⟨rfl, rfl⟩
  | cons entry entries ih =>
    obtain ⟨hentry, hentries⟩ := List.forall_mem_cons.1 hwf
    obtain ⟨hcomments, hnames⟩ := ih hentries
    obtain ⟨hcomment, hname⟩ := hentry.filter_lines
    rw [List.flatMap_cons, List.filter_append, List.filter_append, hcomments, hnames, hcomment,
      hname]
    refine ⟨rfl, ?_⟩
    rw [filenames, filenames, List.filterMap_cons]
    cases entry.filename <;> rfl

/-- The lines tell the patches and the comments. -/
theorem same_of_lines_eq (hs : ∀ entry ∈ s.entries, entry.WellFormed)
    (hother : ∀ entry ∈ other.entries, entry.WellFormed)
    (h : s.entries.flatMap Entry.lines = other.entries.flatMap Entry.lines) :
    s.filenames = other.filenames ∧ s.commentLines = other.commentLines := by
  obtain ⟨hcomments, hnames⟩ := filter_lines hs
  obtain ⟨hcomments', hnames'⟩ := filter_lines hother
  rw [h] at hcomments hnames
  exact ⟨List.map_inj_right (fun _ _ => String.toList_inj.1) |>.1 (hnames.symm.trans hnames'),
    hcomments.symm.trans hcomments'⟩

theorem lines_parse_written (hwf : ∀ entry ∈ entries, entry.WellFormed) :
    (parse (written "\n" entries)).entries.flatMap Entry.lines = entries.flatMap Entry.lines := by
  have hinked : inked (entries.flatMap Entry.lines) = entries.flatMap Entry.lines := by
    refine List.filter_eq_self.2 fun line hline => ?_
    obtain ⟨entry, hentry, hline⟩ := List.mem_flatMap.1 hline
    exact decide_eq_true ((hwf entry hentry).of_mem_lines hline).1
  rw [(holds_parse _).lines_eq (clean_trimmedLines _), ← inked_trimmedPieces,
    trimmedPieces_written hwf, inked_append, hinked]
  exact List.append_nil _

-- ---------------------------------------------------------------------------
-- What is put out
-- ---------------------------------------------------------------------------

theorem bytes_written (ending : String) (entries : List Entry) :
    bytes (written ending entries) =
      entries.flatMap fun entry => bytes (entry.display ++ ending) := by
  induction entries with
  | nil => rfl
  | cons entry entries ih =>
    rw [written, List.map_cons, String.join_cons, bytes_append, List.flatMap_cons, ← ih, written]

theorem prints_printEntries (entries : List Entry) (world : World) :
    Prints (.unwritable .full) (printEntries entries) world (.ok ())
      (bytes (written "\n" entries)) := by
  induction entries with
  | nil => exact .of_run fun _ => rfl
  | cons entry entries ih =>
    rw [printEntries, bytes_written, List.flatMap_cons, ← bytes_written]
    exact (prints_print _ world).bind ih

/-- The list of a sequence is put out, as far as there is room for it. -/
theorem prints_list (s : Sequence) (world : World) :
    Prints (.unwritable .full) s.list world (.ok ()) (bytes s.listing) := by
  obtain ⟨entries⟩ := s
  cases entries with
  | nil =>
    have hlist : (list ⟨[]⟩ : ExceptT Error (StateM World) Unit) =
        print "No entries\n" >>= fun _ => pure () := rfl
    have hlisting : bytes (listing ⟨[]⟩) = bytes "No entries\n" ++ [] := rfl
    rw [hlist, hlisting]
    exact (prints_print _ world).bind (.of_run fun _ => rfl)
  | cons entry entries => exact prints_printEntries (entry :: entries) world

theorem run_list (s : Sequence) (world : World) :
    world.run s.list =
      (if world.takes (bytes s.listing) then .ok () else .error (.unwritable .full),
        world.printed (bytes s.listing)) :=
  (prints_list s world).run_eq

/-- What entries look like is how a sequence is written: with a newline and a blank line behind
each entry, the entries of a sequence that was read from a text are read as the same sequence. The
list of such a sequence, if anything is in it, is the entries with a newline behind each, as far as
there is room for it; read again it has the same patches and the same comment lines. -/
theorem display_reads_back (text : String) :
    parse (written "\n\n" (parse text).entries) = parse text ∧
      ((parse text).isEmpty = false →
        (∀ world : World, world.run (parse text).list =
          (if world.takes (bytes (written "\n" (parse text).entries)) then .ok ()
            else .error (.unwritable .full),
            world.printed (bytes (written "\n" (parse text).entries)))) ∧
        (parse (written "\n" (parse text).entries)).filenames = (parse text).filenames ∧
        (parse (written "\n" (parse text).entries)).commentLines = (parse text).commentLines) := by
  have hwf := (holds_parse text).wellFormed (clean_trimmedLines text)
  refine ⟨parse_of_holds (holds_written hwf), fun hsome => ⟨fun world => ?_, ?_⟩⟩
  · rw [run_list, listing, hsome]
    rfl
  · exact same_of_lines_eq ((holds_parse _).wellFormed (clean_trimmedLines _)) hwf
      (lines_parse_written hwf)

/-- Two comments, only the second of which belongs to a patch. -/
def apartComments : Sequence :=
  parse "# one\n\n# two\nfirst.sql\n"

/-- In the list the comments are one, which belongs to the patch. -/
theorem display_reads_back_joined :
    apartComments.isEmpty = false ∧
      (parse (written "\n" apartComments.entries)).filenames = ["first.sql"] ∧
      (parse (written "\n" apartComments.entries)).commentLines =
        ["# one".toList, "# two".toList] ∧
      parse (written "\n" apartComments.entries) ≠ apartComments := by
  have hsome : apartComments.isEmpty = false := by decide
  have hfilenames : apartComments.filenames = ["first.sql"] := by decide
  have hcomments : apartComments.commentLines = ["# one".toList, "# two".toList] := by decide
  obtain ⟨-, hnames, hlines⟩ := (display_reads_back "# one\n\n# two\nfirst.sql\n").2 hsome
  exact ⟨hsome, hnames.trans hfilenames, hlines.trans hcomments, by decide⟩

end ViewRollout.Sequence
