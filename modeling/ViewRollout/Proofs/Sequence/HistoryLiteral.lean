import Mathlib.Data.List.Flatten
import ViewRollout.Proofs.Sql.TokenCuts
import ViewRollout.Sequence.Output

/-!
# The filename in its history entry

An entry names the patch twice, as it is: in a comment and between single
quotes. `recorded_iff`: the entry is the two statements it is meant to be,
with the filename as their one literal, if and only if the comment line is
nothing but comments and the filename has no single quote and no backslash.
-/

namespace ViewRollout.Sequence

open Sql Text

variable {escape : Char → Char} {chars inner rest : List Char} {tokens : List Token}

-- ---------------------------------------------------------------------------
-- The entry
-- ---------------------------------------------------------------------------

def commentLead : List Char :=
  "-- DB history entry for ".toList

def commentLine (chars : List Char) : List Char :=
  commentLead ++ (chars ++ ['\n'])

/-- What stands before the literal in the statement of the row. -/
def rowFront : List Char :=
  "INSERT INTO db_history (filename) VALUES (".toList

/-- What stands behind it, with the statement that keeps the number of the row. -/
def rowBack : List Char :=
  ");\nSET @current_patch_id=LAST_INSERT_ID();\n\n".toList

def literal (inner : List Char) : Token :=
  ⟨.quoted '\'', '\'' :: (inner ++ ['\'']), true⟩

/-- What a literal stands for, where a pair of a backslash and a character stands for one
character. -/
def denoted (escape : Char → Char) : List Char → List Char
  | '\\' :: c :: rest => escape c :: denoted escape rest
  | c :: rest => c :: denoted escape rest
  | [] => []

/-- The code of the entry's bytes is that of the two statements, whatever the filename is, and a
reader of them ends in code; apart from comments, the entry is this code and, where the filename
goes, one literal that stands for it. -/
structure Recorded (escape : Char → Char) (filename : String) : Prop where
  code : (codeFrom (units (historyStatements filename).toList) 0).map (·.2) =
    '\n' :: (rowFront ++ rowBack)
  ends : finish .code (units (historyStatements filename).toList) = .code
  tokenized : ∃ tokens inner, Tokenized (historyStatements filename).toList tokens ∧
    tokens.filter (!·.isComment) =
      ('\n' :: rowFront).map .code ++ literal inner :: rowBack.map .code ∧
    denoted escape inner = filename.toList

def beforeLiteral (chars : List Char) : List Char :=
  '\n' :: (commentLine chars ++ rowFront)

def entryOf (chars : List Char) : List Char :=
  beforeLiteral chars ++ '\'' :: (chars ++ '\'' :: rowBack)

theorem toList_historyStatements (filename : String) :
    (historyStatements filename).toList = entryOf filename.toList := by
  have hlead : "\n-- DB history entry for ".toList = '\n' :: commentLead := by
    unfold commentLead
    rw [String.toList_ofList, String.toList_ofList]
  have hfront : "INSERT INTO db_history (filename) VALUES ('".toList = rowFront ++ ['\''] := by
    unfold rowFront
    rw [String.toList_ofList, String.toList_ofList]
    rfl
  have hback : "');\n".toList ++ "SET @current_patch_id=LAST_INSERT_ID();\n\n".toList =
      '\'' :: rowBack := by
    unfold rowBack
    rw [String.toList_ofList, String.toList_ofList, String.toList_ofList]
    rfl
  have hline : "\n".toList = ['\n'] := by rw [String.toList_ofList]
  unfold historyStatements
  simp only [entryOf, beforeLiteral, commentLine, String.toList_append, List.append_assoc, hlead,
    hfront, hback, hline, List.cons_append, List.nil_append]

theorem exists_commentLead : ∃ inner, commentLead = '-' :: '-' :: inner ∧ '\n' ∉ inner := by
  unfold commentLead
  rw [String.toList_ofList]
  exact ⟨_, rfl, by decide⟩

theorem commentLead_open : '\n' ∉ commentLead ∧ '/' ∉ commentLead := by
  unfold commentLead
  rw [String.toList_ofList]
  decide

theorem rowFront_stays : ∀ c ∈ rowFront, leavesCode c = false := by
  have hany : rowFront.any leavesCode = false := by
    unfold rowFront
    rw [String.toList_ofList]
    decide
  simpa using hany

theorem newline_not_mem_rowFront : '\n' ∉ rowFront := by
  unfold rowFront
  rw [String.toList_ofList]
  decide

theorem rowBack_stays : ∀ c ∈ rowBack, leavesCode c = false := by
  have hany : rowBack.any leavesCode = false := by
    unfold rowBack
    rw [String.toList_ofList]
    decide
  simpa using hany

theorem rows_ascii : ∀ c ∈ '\n' :: (rowFront ++ rowBack), c.toNat < 0x80 := by
  have hall : ('\n' :: (rowFront ++ rowBack)).all (·.toNat < 0x80) = true := by
    unfold rowFront rowBack
    rw [String.toList_ofList, String.toList_ofList]
    decide
  exact fun c hc => of_decide_eq_true (List.all_eq_true.1 hall c hc)

theorem getLast?_rowFront : rowFront.getLast? = some '(' := by
  unfold rowFront
  rw [String.toList_ofList]
  rfl

theorem getLast?_rowBack : rowBack.getLast? = some '\n' := by
  unfold rowBack
  rw [String.toList_ofList]
  rfl

-- ---------------------------------------------------------------------------
-- What literals stand for
-- ---------------------------------------------------------------------------

theorem length_denoted_le (escape : Char → Char) (inner : List Char) :
    (denoted escape inner).length ≤ inner.length := by
  fun_induction denoted escape inner with
  | case1 c rest ih => simp only [List.length_cons]; omega
  | case2 c rest _ ih => simp only [List.length_cons]; omega
  | case3 => exact Nat.le_refl _

theorem denoted_append (h : '\\' ∉ inner) (rest : List Char) :
    denoted escape (inner ++ rest) = inner ++ denoted escape rest := by
  induction inner with
  | nil => rfl
  | cons c inner ih =>
    obtain ⟨hc, hinner⟩ := not_or.1 (mt List.mem_cons.2 h)
    rw [List.cons_append, denoted, ih hinner, List.cons_append]
    rintro d more rfl
    exact absurd rfl hc

theorem denoted_eq_self (h : '\\' ∉ inner) : denoted escape inner = inner := by
  have happend : denoted escape (inner ++ []) = inner ++ denoted escape [] := denoted_append h []
  simpa [denoted] using happend

/-- A literal that stands for itself has no backslash, as its last character would take the closing
quote along. -/
theorem no_backslash (hd : denoted escape inner = inner)
    (hfirst : ClosesFirst (.quoted '\'') (inner ++ (['\''] ++ rest)) inner.length) :
    '\\' ∉ inner := by
  intro hm
  obtain ⟨before, behind, rfl, hbefore⟩ := List.eq_append_cons_of_mem hm
  rw [denoted_append hbefore] at hd
  have hd := List.append_cancel_left hd
  cases behind with
  | nil =>
    refine hfirst.1.2 ⟨rfl, ?_⟩
    rw [List.append_assoc, pairSeconds_append_of_no_backslash hbefore]
    simp [pairSeconds]
  | cons c behind =>
    have hlength := length_denoted_le escape behind
    have := congrArg List.length hd
    simp only [denoted, List.length_cons] at this
    omega

-- ---------------------------------------------------------------------------
-- Entries that are read as they are meant
-- ---------------------------------------------------------------------------

theorem commentsOnly_commentLine (h : '\n' ∉ chars) : CommentsOnly (commentLine chars) := by
  obtain ⟨opening, hlead, hopening⟩ := exists_commentLead
  have hline := commentsOnly_line (mt List.mem_append.1 (not_or.2 ⟨hopening, h⟩))
  rwa [commentLine, hlead, List.cons_append, List.cons_append, ← List.append_assoc]

theorem filter_codes {keeps : Token → Bool} (h : ∀ c, keeps (.code c) = true)
    (chars : List Char) : (chars.map Token.code).filter keeps = chars.map .code :=
  List.filter_eq_self.2 (List.forall_mem_map.2 fun c _ => h c)

theorem flatMap_code (chars : List Char) : (chars.map Token.code).flatMap (·.chars) = chars := by
  induction chars with
  | nil => rfl
  | cons c chars ih => exact congrArg (c :: ·) ih

/-- Comments are no code, and neither is the literal. -/
theorem code_of_filter {front back : List Char}
    (h : tokens.filter (!·.isComment) = front.map .code ++ literal inner :: back.map .code) :
    (tokens.filter (·.region == .code)).flatMap (·.chars) = front ++ back := by
  have hsame : (tokens.filter (!·.isComment)).filter (·.region == .code) =
      tokens.filter (·.region == .code) := by
    rw [List.filter_filter]
    refine List.filter_congr fun token _ => ?_
    cases hcomment : token.isComment with
    | true => simp [Token.region_ne_code hcomment]
    | false => simp
  have hliteral : ((literal inner).region == .code) = false := rfl
  rw [← hsame, h, List.filter_append, List.filter_cons, hliteral, filter_codes fun _ => rfl,
    filter_codes fun _ => rfl]
  simp [flatMap_code]

theorem begins_literal (h : '\'' ∉ inner) (hs : '\\' ∉ inner) (rest : List Char) :
    Begins ('\'' :: (inner ++ '\'' :: rest)) (literal inner) rest :=
  .closed (.quoted rfl) ((closesFirst_iff_not_mem rfl fun _ => hs).2 h)

theorem tokenized_entry {comments : List Token} (hcomments : Tokenized (commentLine chars) comments)
    (honly : ∀ token ∈ comments, token.isComment = true ∧ token.closed = true)
    (hquote : '\'' ∉ chars) (hs : '\\' ∉ chars) :
    Tokenized (entryOf chars) (.code '\n' :: (comments ++
      (rowFront.map .code ++ literal chars :: rowBack.map .code))) := by
  have hback : Tokenized rowBack (rowBack.map .code) := by
    have h := Tokenized.append_of_stays rowBack_stays .nil
    simpa using h
  have hrow := Tokenized.append_of_stays rowFront_stays
    (.cons (begins_literal hquote hs rowBack) hback)
  rw [entryOf, beforeLiteral, List.cons_append, List.append_assoc]
  exact .cons (begins_of_stays rfl _) (hcomments.append
    (fun token hm => ⟨(honly token hm).2, Token.region_ne_code (honly token hm).1⟩) hrow)

theorem recorded_of_plain {filename : String}
    (hcomment : CommentsOnly (commentLine filename.toList))
    (hquote : '\'' ∉ filename.toList) (hs : '\\' ∉ filename.toList) :
    Recorded escape filename := by
  obtain ⟨comments, hcomments, honly⟩ := hcomment
  have hentry := tokenized_entry hcomments honly hquote hs
  rw [← toList_historyStatements] at hentry
  have hfilter : (.code '\n' :: (comments ++
      (rowFront.map .code ++ literal filename.toList :: rowBack.map .code))).filter (!·.isComment) =
      ('\n' :: rowFront).map .code ++ literal filename.toList :: rowBack.map .code := by
    have hnone : comments.filter (!·.isComment) = [] :=
      List.filter_eq_nil_iff.2 fun token hm => by simp [honly token hm]
    have hliteral : (literal filename.toList).isComment = false := rfl
    have hcode (c : Char) : (Token.code c).isComment = false := rfl
    have hcodes (chars : List Char) :
        (chars.map Token.code).filter (!·.isComment) = chars.map .code :=
      filter_codes (fun _ => rfl) chars
    simp [hnone, hliteral, hcode, hcodes]
  refine ⟨?_, ?_, _, _, hentry, hfilter, denoted_eq_self hs⟩
  · rw [map_codeFrom_units, hentry.map_codeFrom, code_of_filter hfilter]
    exact units_of_all_ascii rows_ascii
  · have hlast : (rowBack.map Token.code).getLast? = some (.code '\n') := by
      rw [List.getLast?_map, getLast?_rowBack]
      rfl
    have hclosed : (Token.code '\n').closed = true := rfl
    rw [finish_code_units, hentry.finish_eq]
    simp [finishOf, List.getLast?_append, List.getLast?_cons, hlast, hclosed]

-- ---------------------------------------------------------------------------
-- Where the literal stands
-- ---------------------------------------------------------------------------

theorem Recorded.exists_before {filename : String} (h : Recorded escape filename) :
    ∃ before inner behind, Tokenized (entryOf filename.toList) (before ++ literal inner :: behind) ∧
      before.filter (!·.isComment) = ('\n' :: rowFront).map .code ∧
      denoted escape inner = filename.toList := by
  obtain ⟨tokens, inner, htokens, hfilter, hdenoted⟩ := h.tokenized
  obtain ⟨front, back, rfl, hfront, hback⟩ := List.filter_eq_append_iff.1 hfilter
  obtain ⟨skipped, behind, rfl, hskipped, -, -⟩ := List.filter_eq_cons_iff.1 hback
  refine ⟨front ++ skipped, inner, behind, ?_, ?_, hdenoted⟩
  · rw [List.append_assoc, ← toList_historyStatements]
    exact htokens
  · rw [List.filter_append, hfront, List.filter_eq_nil_iff.2 hskipped, List.append_nil]

theorem closesFirst_literal {text : List Char} (h : Begins text (literal inner) rest) :
    ClosesFirst (.quoted '\'') (inner ++ (['\''] ++ rest)) inner.length := by
  generalize htoken : literal inner = token at h
  cases h with
  | code => cases (Token.mk.inj htoken).1
  | unclosed => cases (Token.mk.inj htoken).2.2
  | @closed region opening other rest ho hfirst =>
    obtain ⟨rfl, hchars, -⟩ := Token.mk.inj htoken
    cases ho with
    | quoted =>
      obtain rfl : inner = other := List.append_cancel_right (List.cons.inj hchars).2
      exact hfirst

/-- Of two places where the character stands, the one that no other follows comes last. -/
theorem eq_of_last {c : Char} {a b x y : List Char} (h : a ++ c :: x = b ++ c :: y) (hx : c ∉ x)
    (hle : a.length ≤ b.length) : a = b ∧ x = y := by
  rcases append_eq_append_cons_iff.1 h with ⟨more, rfl, -⟩ | ⟨more, rfl, he⟩
  · rw [List.length_append, List.length_cons] at hle
    omega
  · cases more with
    | nil => simpa using he
    | cons d more =>
      obtain ⟨rfl, rfl⟩ := List.cons.inj he
      exact absurd (by simp) hx

/-- A quote behind a parenthesis is not the second character of a backslash pair. -/
theorem closesAt_behind_paren {front inside : List Char}
    (h : (front ++ '\'' :: inside).getLast? = some '(') (back : List Char) :
    ClosesAt (.quoted '\'') (inside ++ '\'' :: back) inside.length := by
  refine ⟨by simp [Region.closing], fun ⟨_, hpair⟩ => ?_⟩
  obtain ⟨last, hlast, hslash⟩ := getElem?_pairSeconds hpair
  rw [List.getElem?_append_left (by omega)] at hslash
  rw [List.getLast?_append, List.getLast?_cons, List.getLast?_eq_getElem?, hlast,
    Nat.add_sub_cancel, hslash] at h
  cases h

theorem getLast?_beforeLiteral (chars : List Char) : (beforeLiteral chars).getLast? = some '(' := by
  simp [beforeLiteral, List.getLast?_cons, List.getLast?_append, getLast?_rowFront]

theorem length_before_ge {more : List Token} {line : Token}
    (hlength : commentLead.length < line.chars.length)
    (hcode : more.filter (!·.isComment) = rowFront.map .code) :
    commentLead.length + rowFront.length + 2 ≤
      ((.code '\n' :: line :: more : List Token).flatMap (·.chars)).length := by
  have hmore : rowFront.length ≤ (more.flatMap (·.chars)).length := by
    have h := (List.filter_sublist (p := (!·.isComment)) (l := more)).flatMap (·.chars)
    rw [hcode, flatMap_code] at h
    exact h.length_le
  have hfirst : (Token.code '\n').chars.length = 1 := rfl
  simp only [List.flatMap_cons, List.length_append, hfirst]
  omega

section

variable {before behind : List Token}
  (h : Tokenized (entryOf chars) (before ++ literal inner :: behind))

include h

theorem flatMap_entry :
    before.flatMap (·.chars) ++ '\'' :: (inner ++ '\'' :: behind.flatMap (·.chars)) =
      beforeLiteral chars ++ '\'' :: (chars ++ '\'' :: rowBack) := by
  have hchars := h.flatMap_chars
  simpa [literal, entryOf] using hchars

theorem closesFirst_entry :
    ClosesFirst (.quoted '\'') (inner ++ (['\''] ++ behind.flatMap (·.chars))) inner.length := by
  obtain ⟨rest, hbegins⟩ := h.of_append_right.begins
  have hrest := hbegins.chars_append
  rw [List.flatMap_cons] at hrest
  rw [← List.append_cancel_left hrest]
  exact closesFirst_literal hbegins

/-- What comes before the literal begins with a comment that goes on past the text before the
filename. -/
theorem exists_line (hcode : before.filter (!·.isComment) = ('\n' :: rowFront).map .code) :
    ∃ line more, before = .code '\n' :: line :: more ∧ commentLead.length < line.chars.length ∧
      more.filter (!·.isComment) = rowFront.map .code := by
  have hclosed := h.closed_of_append (List.cons_ne_nil _ _)
  cases before with
  | nil => cases hcode
  | cons first before =>
    obtain _ | ⟨hfirst, hrest⟩ := h
    obtain ⟨rfl, rfl⟩ := hfirst.unique (begins_of_stays rfl _)
    have hcode : before.filter (!·.isComment) = rowFront.map .code := (List.cons.inj hcode).2
    cases before with
    | nil => cases hcode
    | cons line more =>
      obtain ⟨rest, hline⟩ := hrest.begins
      have hlead : Begins (commentLead ++ (chars ++ ['\n'] ++ rowFront ++
          '\'' :: (chars ++ '\'' :: rowBack))) line rest := by
        simpa [commentLine] using hline
      have hcomment : line.isComment = true := by
        obtain ⟨opening, hopening, -⟩ := exists_commentLead
        rw [hopening] at hlead
        exact hlead.isComment_of_dashes
      have hlineClosed := hclosed line (List.mem_cons_of_mem _ (List.mem_cons_self ..))
      have hlength := hlead.length_lt_of_isComment hcomment hlineClosed commentLead_open.1
        commentLead_open.2
      rw [List.filter_cons_of_neg (by simp [hcomment])] at hcode
      exact ⟨line, more, rfl, hlength, hcode⟩

/-- The literal does not open before the quote that is meant to open it: up to that quote there
would be fewer characters left than the filename has, and that quote would close it. -/
theorem literal_in_place (hcode : before.filter (!·.isComment) = ('\n' :: rowFront).map .code)
    (hle : chars.length ≤ inner.length) :
    (beforeLiteral chars).length ≤ (before.flatMap (·.chars)).length := by
  refine Nat.le_of_not_lt fun hlt => ?_
  rcases append_eq_append_cons_iff.1 (flatMap_entry h).symm with
    ⟨inside, hfront, hinner⟩ | ⟨more, hmore, -⟩
  · have hclose : ClosesAt (.quoted '\'') (inner ++ '\'' :: behind.flatMap (·.chars))
        inside.length := by
      rw [hinner]
      exact closesAt_behind_paren (hfront ▸ getLast?_beforeLiteral chars) _
    have hinside : inner.length ≤ inside.length :=
      Nat.le_of_not_lt fun hearlier => (closesFirst_entry h).2 _ hearlier hclose
    obtain ⟨line, more, rfl, hline, hmore⟩ := exists_line h hcode
    have hbefore := length_before_ge hline hmore
    have hlength := congrArg List.length hfront
    simp only [beforeLiteral, commentLine, List.length_append, List.length_cons, List.length_nil]
      at hlength
    omega
  · rw [hmore, List.length_append] at hlt
    omega

theorem literal_eq (hcode : before.filter (!·.isComment) = ('\n' :: rowFront).map .code)
    (hle : chars.length ≤ inner.length) :
    before.flatMap (·.chars) = beforeLiteral chars ∧ inner = chars := by
  have hplace := literal_in_place h hcode hle
  have hentry : (beforeLiteral chars ++ '\'' :: chars) ++ '\'' :: rowBack =
      (before.flatMap (·.chars) ++ '\'' :: inner) ++ '\'' :: behind.flatMap (·.chars) := by
    simpa using (flatMap_entry h).symm
  have hquote : '\'' ∉ rowBack := fun hm => nomatch rowBack_stays _ hm
  obtain ⟨hfront, -⟩ := eq_of_last hentry hquote (by
    simp only [List.length_append, List.length_cons]
    omega)
  have hlength := congrArg List.length hfront
  simp only [List.length_append, List.length_cons] at hlength
  obtain ⟨hbefore, hchars⟩ := List.append_inj hfront (by omega)
  exact ⟨hbefore.symm, (List.cons.inj hchars).2.symm⟩

end

-- ---------------------------------------------------------------------------
-- The comment line
-- ---------------------------------------------------------------------------

theorem commentsOnly_of_before {before : List Token} (h : Tokenized (beforeLiteral chars) before)
    (hclosed : ∀ token ∈ before, token.closed = true)
    (hcode : before.filter (!·.isComment) = ('\n' :: rowFront).map .code) :
    CommentsOnly (commentLine chars) := by
  have hkinds : CodeAndComments before := by
    refine fun token hm => ⟨hclosed token hm, fun hcomment => ?_⟩
    have hkept : token ∈ before.filter (!·.isComment) := List.mem_filter.2 ⟨hm, by simp [hcomment]⟩
    rw [hcode] at hkept
    obtain ⟨c, -, rfl⟩ := List.mem_map.1 hkept
    rfl
  have hrow : Tokenized (('\n' :: commentLine chars) ++ rowFront) before := h
  obtain ⟨front, rfl, hfront⟩ := hrow.append_code hkinds newline_not_mem_rowFront
    fun hm => nomatch rowFront_stays _ hm
  cases hfront with
  | @cons _ _ first comments hfirst hcomments =>
    obtain ⟨rfl, rfl⟩ := hfirst.unique (begins_of_stays rfl _)
    have hkept : comments.filter (!·.isComment) ++ rowFront.map .code = rowFront.map .code := by
      have hbehind : (comments ++ rowFront.map Token.code).filter (!·.isComment) =
          rowFront.map .code := (List.cons.inj hcode).2
      rwa [List.filter_append, filter_codes fun _ => rfl] at hbehind
    have hnone := List.filter_eq_nil_iff.1 (List.append_left_eq_self.1 hkept)
    refine ⟨comments, hcomments, fun token hm => ⟨by simpa using hnone token hm, hclosed token ?_⟩⟩
    simp [hm]

/-- An entry is recorded exactly if its comment line is nothing but comments and the filename, as
it stands between the quotes, is a literal that stands for itself. On one line, the filename cannot
leave the comment, so that the quotes and backslashes alone decide. -/
theorem recorded_iff (escape : Char → Char) (filename : String) :
    (Recorded escape filename ↔ CommentsOnly (commentLine filename.toList) ∧
      '\'' ∉ filename.toList ∧ '\\' ∉ filename.toList) ∧
    ('\n' ∉ filename.toList →
      (Recorded escape filename ↔ '\'' ∉ filename.toList ∧ '\\' ∉ filename.toList)) := by
  have hiff : Recorded escape filename ↔ CommentsOnly (commentLine filename.toList) ∧
      '\'' ∉ filename.toList ∧ '\\' ∉ filename.toList := by
    constructor
    · intro h
      obtain ⟨before, inner, behind, htokens, hcode, hdenoted⟩ := h.exists_before
      have hle : filename.toList.length ≤ inner.length := by
        rw [← hdenoted]
        exact length_denoted_le escape inner
      obtain ⟨hbefore, rfl⟩ := literal_eq htokens hcode hle
      have hfirst := closesFirst_entry htokens
      have hs := no_backslash hdenoted hfirst
      refine ⟨commentsOnly_of_before (hbefore ▸ htokens.of_append_left)
        (htokens.closed_of_append (List.cons_ne_nil _ _)) hcode, ?_, hs⟩
      have hclosing : (Region.quoted '\'').closing = ['\''] := rfl
      exact (closesFirst_iff_not_mem hclosing fun _ => hs).1 hfirst
    · rintro ⟨hcomment, hquote, hs⟩
      exact recorded_of_plain hcomment hquote hs
  refine ⟨hiff, fun hline => hiff.trans (and_iff_right (commentsOnly_commentLine hline))⟩

theorem recorded_schemaPatch : '\n' ∉ "schema/a.sql".toList ∧ Recorded id "schema/a.sql" := by
  have hline : '\n' ∉ "schema/a.sql".toList := by decide
  exact ⟨hline, ((recorded_iff id "schema/a.sql").2 hline).2 ⟨by decide, by decide⟩⟩

/-- An apostrophe closes the literal, and the quote behind the filename opens another one that the
entry never closes. -/
theorem unrecorded_apostrophe :
    finish .code (units (historyStatements "it's.sql").toList) = .quoted '\'' ∧
      (codeFrom (units (historyStatements "it's.sql").toList) 0).map (·.2) =
        '\n' :: (rowFront ++ "s.sql".toList) ∧
      ∀ escape, ¬Recorded escape "it's.sql" := by
  have hread : finish .code (units (historyStatements "it's.sql").toList) = .quoted '\'' ∧
      (codeFrom (units (historyStatements "it's.sql").toList) 0).map (·.2) =
        '\n' :: (rowFront ++ "s.sql".toList) := by
    rw [toList_historyStatements]
    unfold entryOf beforeLiteral commentLine commentLead rowFront rowBack
    repeat rw [String.toList_ofList]
    decide +kernel
  refine ⟨hread.1, hread.2, fun escape h => ?_⟩
  have hends := h.ends
  rw [hread.1] at hends
  cases hends

end ViewRollout.Sequence
