import ViewRollout.Proofs.Sql.ByteMarks
import ViewRollout.Proofs.Sql.Seam

/-!
# Cutting rows of tokens

A row of tokens can be cut between any two of them: what stands in front of
the cut is a row of its own (`Tokenized.of_append_left`), since the closing of
a region is settled by the text up to it (`ClosesFirst.congr`). The other way
round, comments that are closed and code that opens nothing can be put in
front of any row. What is code comes out the same in the bytes of a text as in
its characters.
-/

namespace ViewRollout.Sql

open Text

variable {region : Region} {text opening inner rest rest' word : List Char} {c : Char}
variable {token : Token} {tokens front back : List Token} {place : Nat}

def Token.isComment (token : Token) : Bool :=
  token.region == .lineComment || token.region == .blockComment

/-- The text is closed comments, one directly behind the other. -/
def CommentsOnly (text : List Char) : Prop :=
  ∃ tokens, Tokenized text tokens ∧ ∀ token ∈ tokens, token.isComment = true ∧ token.closed = true

theorem Token.region_ne_code (h : token.isComment = true) : token.region ≠ .code := by
  intro hcode
  rw [Token.isComment, hcode] at h
  cases h

-- ---------------------------------------------------------------------------
-- Backslash pairs
-- ---------------------------------------------------------------------------

theorem getElem?_pairSeconds (h : (pairSeconds text)[place]? = some true) :
    ∃ before, place = before + 1 ∧ text[before]? = some '\\' := by
  fun_induction pairSeconds text generalizing place with
  | case1 d rest ih =>
    match place with
    | 0 => cases h
    | 1 => exact ⟨0, rfl, rfl⟩
    | place + 2 =>
      obtain ⟨before, rfl, hbefore⟩ := ih h
      exact ⟨before + 2, rfl, hbefore⟩
  | case2 c rest hne ih =>
    match place with
    | 0 => cases h
    | place + 1 =>
      obtain ⟨before, rfl, hbefore⟩ := ih h
      exact ⟨before + 1, rfl, hbefore⟩
  | case3 => cases h

theorem pairSeconds_append_of_no_backslash (h : '\\' ∉ word) (text : List Char) :
    pairSeconds (word ++ text) = word.map (fun _ => false) ++ pairSeconds text := by
  induction word with
  | nil => rfl
  | cons c word ih =>
    obtain ⟨hc, hword⟩ := not_or.1 (mt List.mem_cons.2 h)
    rw [List.cons_append, pairSeconds_cons fun hpair => hc hpair.1.symm, ih hword]
    rfl

theorem getElem?_pairSeconds_append (h : place < word.length) (rest rest' : List Char) :
    (pairSeconds (word ++ rest))[place]? = some true ↔
      (pairSeconds (word ++ rest'))[place]? = some true := by
  fun_induction pairSeconds word generalizing place with
  | case1 d word ih =>
    match place with
    | 0 => rfl
    | 1 => rfl
    | place + 2 => exact ih (by simpa using h)
  | case2 c word hne ih =>
    cases place with
    | zero => simp [pairSeconds_zero]
    | succ place =>
      have hplace : place < word.length := Nat.lt_of_succ_lt_succ h
      have hword : word ≠ [] := List.length_pos_iff.1 (Nat.zero_lt_of_lt hplace)
      have hpair (more : List Char) : ¬(c = '\\' ∧ word ++ more ≠ []) := by
        obtain ⟨d, word, rfl⟩ := List.exists_cons_of_ne_nil hword
        exact fun hc => hne d word hc.1 rfl
      simp only [List.cons_append, pairSeconds_cons (hpair _)]
      exact ih hplace
  | case3 => cases h

-- ---------------------------------------------------------------------------
-- Where a region is closed
-- ---------------------------------------------------------------------------

theorem Opens.closing_length_pos (ho : Opens region opening) : 0 < region.closing.length := by
  cases ho <;> simp [Region.closing]

theorem ClosesAt.congr (ho : Opens region opening)
    (hplace : place + region.closing.length ≤ word.length)
    (h : ClosesAt region (word ++ rest) place) (rest' : List Char) :
    ClosesAt region (word ++ rest') place := by
  have hlt : place < word.length := by
    have := ho.closing_length_pos
    omega
  refine ⟨?_, fun hpair => h.2 ⟨hpair.1, (getElem?_pairSeconds_append hlt _ _).1 hpair.2⟩⟩
  have hinside : region.closing <+: word.drop place := by
    refine List.prefix_of_prefix_length_le h.1 ?_ ?_
    · rw [List.drop_append_of_le_length (Nat.le_of_lt hlt)]
      exact List.prefix_append ..
    · rw [List.length_drop]
      omega
  rw [List.drop_append_of_le_length (Nat.le_of_lt hlt)]
  exact hinside.trans (List.prefix_append ..)

/-- What stands behind the closing of a region has no say in it. -/
theorem ClosesFirst.congr (ho : Opens region opening)
    (h : ClosesFirst region (inner ++ (region.closing ++ rest)) inner.length)
    (rest' : List Char) :
    ClosesFirst region (inner ++ (region.closing ++ rest')) inner.length := by
  rw [← List.append_assoc] at h ⊢
  have hlength : (inner ++ region.closing).length = inner.length + region.closing.length :=
    List.length_append
  refine ⟨h.1.congr ho (Nat.le_of_eq hlength.symm) rest', fun earlier he hc => ?_⟩
  exact h.2 earlier he (hc.congr ho (by omega) rest)

theorem closesAt_iff_of_no_backslash (hs : region.escapes = true → '\\' ∉ word)
    (hplace : place ≤ word.length) :
    ClosesAt region (word ++ rest) place ↔ region.closing <+: (word ++ rest).drop place := by
  refine and_iff_left_of_imp fun _ => ?_
  rintro ⟨hescapes, hpair⟩
  rw [pairSeconds_append_of_no_backslash (hs hescapes)] at hpair
  rcases Nat.lt_or_eq_of_le hplace with hlt | rfl
  · simp [List.getElem?_append_left, hlt] at hpair
  · rw [List.getElem?_append_right (by simp), List.length_map, Nat.sub_self] at hpair
    exact pairSeconds_zero _ hpair

/-- Where no backslash is in the way, a region is closed by the first such character. -/
theorem closesFirst_iff_not_mem (hc : region.closing = [c])
    (hs : region.escapes = true → '\\' ∉ inner) :
    ClosesFirst region (inner ++ (region.closing ++ rest)) inner.length ↔ c ∉ inner := by
  constructor
  · intro h hm
    obtain ⟨before, behind, rfl⟩ := List.append_of_mem hm
    refine h.2 before.length (by simp) ((closesAt_iff_of_no_backslash hs (by simp)).2 ?_)
    rw [hc, List.append_assoc, List.drop_left]
    exact List.cons_prefix_cons.2 ⟨rfl, List.nil_prefix⟩
  · intro hm
    refine ⟨(closesAt_iff_of_no_backslash hs (Nat.le_refl _)).2 ?_, fun earlier he hclose => hm ?_⟩
    · rw [List.drop_left]
      exact List.prefix_append ..
    · have hp := hclose.1
      rw [hc, List.drop_append_of_le_length (Nat.le_of_lt he), List.drop_eq_getElem_cons he] at hp
      exact (List.cons_prefix_cons.1 hp).1 ▸ List.getElem_mem he

theorem commentsOnly_line (h : '\n' ∉ inner) : CommentsOnly ('-' :: '-' :: (inner ++ ['\n'])) := by
  have hclosing : Region.lineComment.closing = ['\n'] := rfl
  have hfirst : ClosesFirst .lineComment (inner ++ (Region.lineComment.closing ++ []))
      inner.length := (closesFirst_iff_not_mem hclosing nofun).2 h
  exact ⟨[_], .cons (.closed .lineComment hfirst) .nil, by simp [Token.isComment]⟩

-- ---------------------------------------------------------------------------
-- Tokens with other text behind them
-- ---------------------------------------------------------------------------

theorem Begins.congr (h : Begins text token rest) (hc : token.closed = true)
    (hr : token.region = .code → rest' <+: rest) :
    Begins (token.chars ++ rest') token rest' := by
  cases h with
  | @code c rest hnone =>
    refine .code fun region opening ho hp => hnone region opening ho (hp.trans ?_)
    exact List.cons_prefix_cons.2 ⟨rfl, hr rfl⟩
  | @closed region opening inner rest ho hfirst =>
    have h := Begins.closed ho (hfirst.congr ho rest')
    simpa using h
  | unclosed => cases hc

theorem Tokenized.eq_nil (h : Tokenized [] tokens) : tokens = [] :=
  h.unique .nil

theorem Tokenized.begins (h : Tokenized text (token :: tokens)) :
    ∃ rest, Begins text token rest := by
  cases h with
  | cons hbegins => exact ⟨_, hbegins⟩

theorem Tokenized.closed_of_append (h : Tokenized text (front ++ back)) (hb : back ≠ []) :
    ∀ token ∈ front, token.closed = true := by
  induction front generalizing text with
  | nil => nofun
  | cons first front ih =>
    cases h with
    | cons hbegins hrest =>
      refine List.forall_mem_cons.2 ⟨?_, ih hrest⟩
      cases hc : first.closed with
      | true => rfl
      | false =>
        rw [hbegins.rest_eq_nil hc] at hrest
        exact absurd (List.append_eq_nil_iff.1 hrest.eq_nil).2 hb

theorem Tokenized.of_append_right (h : Tokenized text (front ++ back)) :
    Tokenized (back.flatMap (·.chars)) back := by
  induction front generalizing text with
  | nil =>
    have hchars := h.flatMap_chars
    rw [List.nil_append] at h hchars
    rwa [hchars]
  | cons first front ih =>
    cases h with
    | cons _ hrest => exact ih hrest

theorem Tokenized.of_append_left (h : Tokenized text (front ++ back)) :
    Tokenized (front.flatMap (·.chars)) front := by
  induction front generalizing text with
  | nil => exact .nil
  | cons first front ih =>
    cases h with
    | cons hbegins hrest =>
      refine .cons ?_ (ih hrest)
      have hchars := hrest.flatMap_chars
      cases hc : first.closed with
      | true =>
        refine hbegins.congr hc fun _ => ?_
        exact ⟨back.flatMap (·.chars), by rw [← hchars]; exact List.flatMap_append.symm⟩
      | false =>
        obtain rfl := hbegins.rest_eq_nil hc
        obtain ⟨rfl, -⟩ := List.append_eq_nil_iff.1 hrest.eq_nil
        rw [List.flatMap_cons, List.flatMap_nil, hbegins.chars_append]
        exact hbegins

/-- Closed comments and quoted segments can stand in front of any text. -/
theorem Tokenized.append (hf : Tokenized text front)
    (hc : ∀ token ∈ front, token.closed = true ∧ token.region ≠ .code)
    (hb : Tokenized rest back) : Tokenized (text ++ rest) (front ++ back) := by
  induction hf with
  | nil => exact hb
  | @cons text behind token tokens hbegins _ ih =>
    obtain ⟨⟨hclosed, hr⟩, hmore⟩ := List.forall_mem_cons.1 hc
    have h : Begins (token.chars ++ (behind ++ rest)) token (behind ++ rest) :=
      hbegins.congr hclosed fun he => absurd he hr
    rw [← hbegins.chars_append, List.append_assoc]
    exact .cons h (ih hmore)

theorem begins_of_stays (h : leavesCode c = false) (rest : List Char) :
    Begins (c :: rest) (.code c) rest := by
  simp only [leavesCode, Bool.or_eq_false_iff, beq_eq_false_iff_ne] at h
  obtain ⟨⟨hdash, hslash⟩, hquote⟩ := h
  refine .code fun region opening ho hp => ?_
  cases ho with
  | lineComment => exact hdash (List.cons_prefix_cons.1 hp).1.symm
  | blockComment => exact hslash (List.cons_prefix_cons.1 hp).1.symm
  | quoted hq =>
    obtain ⟨rfl, -⟩ := List.cons_prefix_cons.1 hp
    rw [hq] at hquote
    cases hquote

theorem Tokenized.append_of_stays (h : ∀ c ∈ word, leavesCode c = false)
    (hb : Tokenized rest back) : Tokenized (word ++ rest) (word.map .code ++ back) := by
  induction word with
  | nil => exact hb
  | cons c word ih =>
    obtain ⟨hc, hword⟩ := List.forall_mem_cons.1 h
    exact .cons (begins_of_stays hc _) (ih hword)

-- ---------------------------------------------------------------------------
-- Code behind comments
-- ---------------------------------------------------------------------------

theorem Begins.getLast?_of_isComment (h : Begins text token rest)
    (hcomment : token.isComment = true) (hc : token.closed = true) :
    token.chars.getLast? = some '\n' ∨ token.chars.getLast? = some '/' := by
  cases h with
  | code => cases hcomment
  | unclosed => cases hc
  | closed ho =>
    cases ho with
    | lineComment => exact .inl (by simp [Region.closing, List.getLast?_cons])
    | blockComment => exact .inr (by simp [Region.closing, List.getLast?_cons])
    | quoted => cases hcomment

/-- A comment does not end before the characters that can close one. -/
theorem Begins.length_lt_of_isComment (h : Begins (opening ++ text) token rest)
    (hcomment : token.isComment = true) (hc : token.closed = true) (hline : '\n' ∉ opening)
    (hblock : '/' ∉ opening) : opening.length < token.chars.length := by
  refine Nat.lt_of_not_le fun hle => ?_
  have hp : token.chars <+: opening :=
    List.prefix_of_prefix_length_le ⟨rest, h.chars_append⟩ (List.prefix_append ..) hle
  rcases h.getLast?_of_isComment hcomment hc with hl | hl
  · exact hline (hp.subset (List.mem_of_getLast? hl))
  · exact hblock (hp.subset (List.mem_of_getLast? hl))

theorem Begins.isComment_of_dashes (h : Begins ('-' :: '-' :: text) token rest) :
    token.isComment = true := by
  generalize htext : '-' :: '-' :: text = whole at h
  cases h with
  | code hnone => exact absurd ⟨text, htext⟩ (hnone _ _ .lineComment)
  | closed ho =>
    obtain ⟨rfl, -⟩ := ho.unique .lineComment ⟨_, rfl⟩ ⟨text, htext⟩
    rfl
  | unclosed ho =>
    obtain ⟨rfl, -⟩ := ho.unique .lineComment ⟨_, rfl⟩ ⟨text, htext⟩
    rfl

/-- Every token is code or a comment that is closed. -/
def CodeAndComments (tokens : List Token) : Prop :=
  ∀ token ∈ tokens, token.closed = true ∧ (token.isComment = false → token.region = .code)

theorem Tokenized.concat_code (h : Tokenized (text ++ [c]) tokens) (hc : CodeAndComments tokens)
    (hline : c ≠ '\n') (hblock : c ≠ '/') :
    ∃ front, tokens = front ++ [.code c] ∧ Tokenized text front := by
  have hchars := h.flatMap_chars
  obtain rfl | ⟨front, last, rfl⟩ := List.eq_nil_or_concat tokens
  · simp at hchars
  · rw [List.concat_eq_append] at h hc hchars ⊢
    obtain ⟨hclosed, hcode⟩ := hc last (by simp)
    obtain ⟨rest, hbegins⟩ := h.of_append_right.begins
    rw [List.flatMap_singleton] at hbegins
    have hend : last.chars.getLast? = some c := by
      have := congrArg List.getLast? hchars
      simpa [List.getLast?_append, hbegins.chars_ne_nil] using this
    have hcomment : last.isComment = false := by
      refine Bool.eq_false_iff.2 fun hcomment => ?_
      rcases hbegins.getLast?_of_isComment hcomment hclosed with hl | hl
      · exact hline (Option.some.inj (hend.symm.trans hl))
      · exact hblock (Option.some.inj (hend.symm.trans hl))
    obtain ⟨d, rfl⟩ := hbegins.eq_code (hcode hcomment)
    obtain rfl : d = c := Option.some.inj hend
    have hfront := h.of_append_left
    simp only [List.flatMap_append, List.flatMap_singleton] at hchars
    rw [List.append_cancel_right hchars] at hfront
    exact ⟨front, rfl, hfront⟩

/-- Code behind which no comment can be closed is read character by character. -/
theorem Tokenized.append_code (h : Tokenized (text ++ word) tokens) (hc : CodeAndComments tokens)
    (hline : '\n' ∉ word) (hblock : '/' ∉ word) :
    ∃ front, tokens = front ++ word.map .code ∧ Tokenized text front := by
  induction word generalizing text with
  | nil => exact ⟨tokens, by simp, by simpa using h⟩
  | cons c word ih =>
    rw [List.append_cons] at h
    obtain ⟨behind, rfl, hbehind⟩ :=
      ih h (fun hm => hline (List.mem_cons_of_mem _ hm))
        fun hm => hblock (List.mem_cons_of_mem _ hm)
    obtain ⟨front, rfl, hfront⟩ :=
      hbehind.concat_code (fun token hm => hc token (List.mem_append_left _ hm))
        (fun he => hline (he ▸ List.mem_cons_self ..)) fun he => hblock (he ▸ List.mem_cons_self ..)
    exact ⟨front, by simp, hfront⟩

-- ---------------------------------------------------------------------------
-- The characters of code
-- ---------------------------------------------------------------------------

theorem map_codeFrom (text : List Char) :
    (codeFrom text 0).map (·.2) = ((mark .code text).filter (·.code)).map (·.char) := by
  rw [codeFrom, List.drop_zero]
  generalize mark .code text = marks
  generalize 0 = start
  induction marks generalizing start with
  | nil => rfl
  | cons marked marks ih =>
    have hrest := ih (start + 1)
    obtain ⟨c, code⟩ := marked
    cases code with
    | true => exact congrArg (c :: ·) hrest
    | false => exact hrest

theorem map_code_marked (chars : List Char) (code : Bool) :
    ((chars.map (Marked.mk · code)).filter (·.code)).map (·.char) = if code then chars else [] := by
  cases code with
  | true => simp [List.filter_map, Function.comp_def]
  | false => simp [List.filter_map, Function.comp_def]

theorem Tokenized.map_codeFrom (h : Tokenized text tokens) :
    (codeFrom text 0).map (·.2) = (tokens.filter (·.region == .code)).flatMap (·.chars) := by
  rw [Sql.map_codeFrom, h.mark_eq]
  clear h
  induction tokens with
  | nil => rfl
  | cons token tokens ih =>
    rw [List.flatMap_cons, List.filter_append, List.map_append, ih, Token.marks, map_code_marked,
      List.filter_cons]
    cases token.region == .code with
    | true => rfl
    | false => rfl

/-- The code of the bytes is the bytes of the code. -/
theorem map_codeFrom_units (text : List Char) :
    (codeFrom (units text) 0).map (·.2) = units ((codeFrom text 0).map (·.2)) := by
  rw [map_codeFrom, map_codeFrom, mark_code_units]
  generalize mark .code text = marks
  induction marks with
  | nil => rfl
  | cons marked marks ih =>
    rw [List.flatMap_cons, List.filter_append, List.map_append, ih, Marked.units, map_code_marked,
      List.filter_cons]
    cases marked.code with
    | true => exact (units_cons ..).symm
    | false => rfl

theorem finish_code_units (text : List Char) :
    finish .code (units text) = .code ↔ finish .code text = .code := by
  -- A character behind the text is code where the text leaves a reader in code.
  have hcode (text : List Char) :
      (codeFlags (text ++ [';']))[text.length]? = some true ↔ finish .code text = .code :=
    codeFlags_eq_true_iff.trans (code_iff_finish (by decide) (by decide))
  have hascii : units [';'] = [';'] := units_of_all_ascii (List.forall_mem_singleton.2 (by decide))
  have hoffset : byteOffset (text ++ [';']) text.length = (units text).length := by
    rw [byteOffset_eq rfl rfl, length_units]
  rw [← hcode, ← hcode, ← codeFlags_byteOffset (text ++ [';']), hoffset, units_append, hascii]

end ViewRollout.Sql
