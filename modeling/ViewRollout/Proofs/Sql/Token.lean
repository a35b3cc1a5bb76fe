import ViewRollout.Proofs.Sql.Cursor

/-!
# The tokens of a text

The grammar that readers of SQL follow: a text is a row of tokens, each one a
comment, a quoted segment or a single character of code. A comment or a
quoted segment goes up to the first place that closes it, or to the end of the
text. `tokens_of_text`: every text has exactly one such row of tokens, and
what is marked as code are its single characters.
-/

namespace ViewRollout.Sql

variable {region : Region} {text opening inner rest : List Char}

-- ---------------------------------------------------------------------------
-- The grammar
-- ---------------------------------------------------------------------------

/-- The region begins in code with this opening. -/
inductive Opens : Region → (opening : List Char) → Prop where
  | lineComment : Opens .lineComment ['-', '-']
  | blockComment : Opens .blockComment ['/', '*']
  | quoted {quote : Char} : isQuote quote = true → Opens (.quoted quote) [quote]

/-- What stands at the end of a region that is closed. -/
def Region.closing : Region → List Char
  | .code => []
  | .quoted quote => [quote]
  | .lineComment => ['\n']
  | .blockComment => ['*', '/']

/-- Whether a backslash makes a pair with the next character there. -/
def Region.escapes : Region → Bool
  | .quoted quote => quote != backtick
  | _ => false

/-- For each character of a text whether it is the second one of a backslash pair, the pairs read
from the left. -/
def pairSeconds : List Char → List Bool
  | '\\' :: _ :: rest => false :: true :: pairSeconds rest
  | _ :: rest => false :: pairSeconds rest
  | [] => []

/-- A region whose opening stands right before the text may be closed at the place. -/
def ClosesAt (region : Region) (text : List Char) (place : Nat) : Prop :=
  region.closing <+: text.drop place ∧
    ¬(region.escapes = true ∧ (pairSeconds text)[place]? = some true)

/-- The place is the first one at which the region may be closed. -/
def ClosesFirst (region : Region) (text : List Char) (place : Nat) : Prop :=
  ClosesAt region text place ∧ ∀ earlier < place, ¬ClosesAt region text earlier

structure Token where
  /-- The region that the characters belong to, those that open and close it included. -/
  region : Region
  chars : List Char
  /-- Only the end of the text leaves a token open. -/
  closed : Bool
  deriving DecidableEq, Repr

def Token.code (c : Char) : Token :=
  ⟨.code, [c], true⟩

/-- The text is the token and what follows it. -/
inductive Begins : (text : List Char) → Token → (rest : List Char) → Prop where
  | code {c : Char} {rest : List Char} :
      (∀ region opening, Opens region opening → ¬opening <+: c :: rest) →
      Begins (c :: rest) (.code c) rest
  | closed {region : Region} {opening inner rest : List Char} : Opens region opening →
      ClosesFirst region (inner ++ (region.closing ++ rest)) inner.length →
      Begins (opening ++ (inner ++ (region.closing ++ rest)))
        ⟨region, opening ++ (inner ++ region.closing), true⟩ rest
  | unclosed {region : Region} {opening inner : List Char} : Opens region opening →
      (∀ place, ¬ClosesAt region inner place) →
      Begins (opening ++ inner) ⟨region, opening ++ inner, false⟩ []

/-- The text is these tokens, one after the other. -/
inductive Tokenized : (text : List Char) → List Token → Prop where
  | nil : Tokenized [] []
  | cons {text rest : List Char} {token : Token} {tokens : List Token} :
      Begins text token rest → Tokenized rest tokens → Tokenized text (token :: tokens)

-- ---------------------------------------------------------------------------
-- One character on
-- ---------------------------------------------------------------------------

theorem mark_cons {region after : Region} {c : Char}
    (h : region.step c rest.head? = (after, false)) :
    mark region (c :: rest) = ⟨c, region == .code && after == .code⟩ :: mark after rest := by
  cases rest with
  | nil =>
    rw [List.head?_nil] at h
    rw [mark, mark, h]
  | cons d rest =>
    rw [List.head?_cons] at h
    rw [mark, h]

theorem finish_cons {region after : Region} {c : Char}
    (h : region.step c rest.head? = (after, false)) :
    finish region (c :: rest) = finish after rest := by
  cases rest with
  | nil =>
    rw [List.head?_nil] at h
    rw [finish, finish, h]
  | cons d rest =>
    rw [List.head?_cons] at h
    rw [finish, h]

theorem mark_pair {region after : Region} {c d : Char}
    (h : region.step c (some d) = (after, true)) :
    mark region (c :: d :: rest) = ⟨c, false⟩ :: ⟨d, false⟩ :: mark after rest := by
  rw [mark, h]

theorem finish_pair {region after : Region} {c d : Char}
    (h : region.step c (some d) = (after, true)) :
    finish region (c :: d :: rest) = finish after rest := by
  rw [finish, h]

def hidden (chars : List Char) : List Marked :=
  chars.map (⟨·, false⟩)

theorem hidden_append (a b : List Char) : hidden (a ++ b) = hidden a ++ hidden b :=
  List.map_append

-- ---------------------------------------------------------------------------
-- Openings and closings
-- ---------------------------------------------------------------------------

theorem step_code_of_isQuote {quote : Char} (h : isQuote quote = true) (next : Option Char) :
    Region.code.step quote next = (.quoted quote, false) := by
  have hdash : '-' ≠ quote := ne_of_isQuote h rfl
  have hslash : '/' ≠ quote := ne_of_isQuote h rfl
  simp [Region.step, hdash.symm, hslash.symm, h]

theorem Opens.mark_eq (h : Opens region opening) (text : List Char) :
    mark .code (opening ++ text) = hidden opening ++ mark region text := by
  cases h with
  | lineComment => exact mark_pair rfl
  | blockComment => exact mark_pair rfl
  | quoted hq => exact mark_cons (step_code_of_isQuote hq _)

theorem Opens.finish_eq (h : Opens region opening) (text : List Char) :
    finish .code (opening ++ text) = finish region text := by
  cases h with
  | lineComment => exact finish_pair rfl
  | blockComment => exact finish_pair rfl
  | quoted hq => exact finish_cons (step_code_of_isQuote hq _)

theorem Opens.ne_code (h : Opens region opening) : region ≠ .code := by
  cases h <;> nofun

theorem Opens.ne_nil (h : Opens region opening) : opening ≠ [] := by
  cases h <;> nofun

/-- A character with which no opening begins is read as code. -/
theorem step_code {c : Char}
    (h : ∀ region opening, Opens region opening → ¬opening <+: c :: rest) :
    Region.code.step c rest.head? = (.code, false) := by
  have hline : ¬(c = '-' ∧ rest.head? = some '-') := by
    rintro ⟨rfl, hhead⟩
    obtain ⟨more, rfl⟩ := List.head?_eq_some_iff.1 hhead
    exact h _ _ .lineComment ⟨more, rfl⟩
  have hblock : ¬(c = '/' ∧ rest.head? = some '*') := by
    rintro ⟨rfl, hhead⟩
    obtain ⟨more, rfl⟩ := List.head?_eq_some_iff.1 hhead
    exact h _ _ .blockComment ⟨more, rfl⟩
  have hquote : isQuote c = false :=
    Bool.eq_false_iff.2 fun hq => h _ _ (.quoted hq) ⟨rest, rfl⟩
  simp only [Region.step, if_neg hline, if_neg hblock, hquote]
  rfl

theorem Opens.unique {region' : Region} {opening' : List Char} (h : Opens region opening)
    (h' : Opens region' opening') (hp : opening <+: text) (hp' : opening' <+: text) :
    region = region' ∧ opening = opening' := by
  obtain ⟨rest, rfl⟩ := hp
  obtain ⟨rest', he⟩ := hp'
  cases h <;> cases h' <;> simp only [List.cons_append, List.nil_append, List.cons.injEq] at he
  case lineComment.lineComment => exact ⟨rfl, rfl⟩
  case blockComment.blockComment => exact ⟨rfl, rfl⟩
  case quoted.quoted =>
    obtain ⟨rfl, -⟩ := he
    exact ⟨rfl, rfl⟩
  -- No two openings begin with the same character.
  case lineComment.blockComment => exact absurd he.1 (by decide)
  case blockComment.lineComment => exact absurd he.1 (by decide)
  case lineComment.quoted hq => exact absurd (he.1 ▸ hq) (by decide)
  case blockComment.quoted hq => exact absurd (he.1 ▸ hq) (by decide)
  case quoted.lineComment hq => exact absurd (he.1 ▸ hq) (by decide)
  case quoted.blockComment hq => exact absurd (he.1 ▸ hq) (by decide)

-- ---------------------------------------------------------------------------
-- Inside a region
-- ---------------------------------------------------------------------------

theorem pairSeconds_cons {c : Char} (h : ¬(c = '\\' ∧ rest ≠ [])) :
    pairSeconds (c :: rest) = false :: pairSeconds rest := by
  rw [pairSeconds]
  rintro d more rfl rfl
  exact h ⟨rfl, nofun⟩

theorem pairSeconds_zero (text : List Char) : (pairSeconds text)[0]? ≠ some true := by
  fun_cases pairSeconds text <;> simp

theorem closesAt_zero_iff : ClosesAt region text 0 ↔ region.closing <+: text := by
  simp [ClosesAt, pairSeconds_zero]

/-- Reading on in a region past characters that do not close it. -/
structure Passes (region : Region) (passed rest : List Char) : Prop where
  nonempty : passed ≠ []
  mark_eq : mark region (passed ++ rest) = hidden passed ++ mark region rest
  finish_eq : finish region (passed ++ rest) = finish region rest
  not_closesAt : ∀ place < passed.length, ¬ClosesAt region (passed ++ rest) place
  closesAt_iff : ∀ place,
    ClosesAt region (passed ++ rest) (passed.length + place) ↔ ClosesAt region rest place

theorem passes_pair {quote d : Char} (hq : isQuote quote = true) (hne : quote ≠ backtick)
    (rest : List Char) : Passes (.quoted quote) ['\\', d] rest := by
  have hs : (Region.quoted quote).step '\\' (some d) = (.quoted quote, true) := by
    simp [Region.step, hne]
  have hslash : '\\' ≠ quote := ne_of_isQuote hq rfl
  refine ⟨List.cons_ne_nil _ _, mark_pair hs, finish_pair hs, fun place hplace => ?_,
    fun place => ?_⟩
  · cases place with
    | zero =>
      rw [closesAt_zero_iff]
      simp [Region.closing, hslash.symm]
    | succ place =>
      obtain rfl : place = 0 := Nat.lt_one_iff.1 (Nat.lt_of_succ_lt_succ hplace)
      simp [ClosesAt, Region.escapes, hne, pairSeconds]
  · rw [show ['\\', d].length + place = place + 2 from Nat.add_comm ..]
    simp [ClosesAt, pairSeconds]

theorem step_inside {c : Char} (hr : region ≠ .code) (h0 : ¬region.closing <+: c :: rest)
    (hp : ¬(region.escapes = true ∧ c = '\\' ∧ rest ≠ [])) :
    region.step c rest.head? = (region, false) := by
  cases region with
  | code => exact absurd rfl hr
  | lineComment =>
    have hc : c ≠ '\n' := fun hc => h0 ⟨rest, by rw [hc]; rfl⟩
    simp [Region.step, hc]
  | blockComment =>
    have hc : ¬(c = '*' ∧ rest.head? = some '/') := by
      rintro ⟨rfl, hhead⟩
      obtain ⟨more, rfl⟩ := List.head?_eq_some_iff.1 hhead
      exact h0 ⟨more, rfl⟩
    simp [Region.step, hc]
  | quoted quote =>
    have hc : c ≠ quote := fun hc => h0 ⟨rest, by rw [hc]; rfl⟩
    have hpair : ¬(c = '\\' ∧ rest.head?.isSome ∧ quote ≠ backtick) := by
      rintro ⟨hslash, hsome, hne⟩
      refine hp ⟨by simpa [Region.escapes] using hne, hslash, ?_⟩
      rintro rfl
      cases hsome
    simp only [Region.step, if_neg hpair, if_neg hc]

theorem passes_one {c : Char} (hr : region ≠ .code) (h0 : ¬region.closing <+: c :: rest)
    (hp : ¬(region.escapes = true ∧ c = '\\' ∧ rest ≠ [])) : Passes region [c] rest := by
  have hs := step_inside hr h0 hp
  have hcode : (region == .code) = false := beq_eq_false_iff_ne.2 hr
  refine ⟨List.cons_ne_nil _ _, ?_, finish_cons hs, fun place hplace => ?_, fun place => ?_⟩
  · rw [List.singleton_append, mark_cons hs, hcode]
    rfl
  · obtain rfl : place = 0 := Nat.lt_one_iff.1 hplace
    rwa [closesAt_zero_iff]
  · rw [show [c].length + place = place + 1 from Nat.add_comm .., List.singleton_append, ClosesAt,
      ClosesAt, List.drop_succ_cons]
    refine and_congr_right fun _ => not_congr (and_congr_right fun he => ?_)
    rw [pairSeconds_cons fun hpair => hp ⟨he, hpair⟩, List.getElem?_cons_succ]

theorem exists_passes (ho : Opens region opening) (hne : text ≠ [])
    (h0 : ¬ClosesAt region text 0) :
    ∃ passed rest, text = passed ++ rest ∧ Passes region passed rest := by
  rw [closesAt_zero_iff] at h0
  obtain ⟨c, rest, rfl⟩ := List.exists_cons_of_ne_nil hne
  -- A backslash pair is passed as a whole: its second character may look like the closing.
  by_cases hp : region.escapes = true ∧ c = '\\' ∧ rest ≠ []
  · obtain ⟨he, rfl, hrest⟩ := hp
    obtain ⟨d, rest, rfl⟩ := List.exists_cons_of_ne_nil hrest
    cases ho with
    | lineComment => cases he
    | blockComment => cases he
    | quoted hq => exact ⟨['\\', d], rest, rfl, passes_pair hq (bne_iff_ne.1 he) rest⟩
  · exact ⟨[c], rest, rfl, passes_one ho.ne_code h0 hp⟩

theorem read_closing (ho : Opens region opening) (rest : List Char) :
    mark region (region.closing ++ rest) = hidden region.closing ++ mark .code rest ∧
      finish region (region.closing ++ rest) = finish .code rest := by
  cases ho with
  | lineComment => exact ⟨mark_cons rfl, finish_cons rfl⟩
  | blockComment => exact ⟨mark_pair rfl, finish_pair rfl⟩
  | @quoted quote hq =>
    have hslash : '\\' ≠ quote := ne_of_isQuote hq rfl
    have hs : (Region.quoted quote).step quote rest.head? = (.code, false) := by
      simp [Region.step, hslash.symm]
    exact ⟨mark_cons hs, finish_cons hs⟩

-- ---------------------------------------------------------------------------
-- A whole region
-- ---------------------------------------------------------------------------

theorem ClosesFirst.unique {place place' : Nat} (h : ClosesFirst region text place)
    (h' : ClosesFirst region text place') : place = place' := by
  have hle : ¬place' < place := fun hlt => h.2 place' hlt h'.1
  have hge : ¬place < place' := fun hlt => h'.2 place hlt h.1
  omega

theorem Passes.closesFirst {passed : List Char} {place : Nat} (hp : Passes region passed rest)
    (h : ClosesFirst region rest place) :
    ClosesFirst region (passed ++ rest) (passed.length + place) := by
  refine ⟨(hp.closesAt_iff place).2 h.1, fun earlier he => ?_⟩
  rcases Nat.lt_or_ge earlier passed.length with hlt | hge
  · exact hp.not_closesAt earlier hlt
  · obtain ⟨behind, rfl⟩ := Nat.exists_eq_add_of_le hge
    rw [hp.closesAt_iff]
    exact h.2 behind (by omega)

theorem Passes.never_closes {passed : List Char} (hp : Passes region passed rest)
    (h : ∀ place, ¬ClosesAt region rest place) (place : Nat) :
    ¬ClosesAt region (passed ++ rest) place := by
  rcases Nat.lt_or_ge place passed.length with hlt | hge
  · exact hp.not_closesAt place hlt
  · obtain ⟨behind, rfl⟩ := Nat.exists_eq_add_of_le hge
    rw [hp.closesAt_iff]
    exact h behind

theorem Opens.never_closes_nil (ho : Opens region opening) (place : Nat) :
    ¬ClosesAt region [] place := by
  rintro ⟨hp, -⟩
  rw [List.drop_nil, List.prefix_nil] at hp
  cases ho <;> cases hp

/-- Whether a region is closed or not, none of it is code; behind it, code is read on. -/
theorem closed_or_unclosed (ho : Opens region opening) (text : List Char) :
    (∃ inner rest, text = inner ++ (region.closing ++ rest) ∧
      ClosesFirst region text inner.length ∧
      mark region text = hidden (inner ++ region.closing) ++ mark .code rest ∧
      finish region text = finish .code rest) ∨
    ((∀ place, ¬ClosesAt region text place) ∧ mark region text = hidden text ∧
      finish region text = region) := by
  induction hn : text.length using Nat.strongRecOn generalizing text with
  | _ n ih =>
    by_cases h0 : ClosesAt region text 0
    · obtain ⟨rest, rfl⟩ := closesAt_zero_iff.1 h0
      obtain ⟨hmark, hfinish⟩ := read_closing ho rest
      exact .inl ⟨[], rest, rfl, ⟨h0, nofun⟩, hmark, hfinish⟩
    · by_cases hnil : text = []
      · subst hnil
        exact .inr ⟨ho.never_closes_nil, rfl, rfl⟩
      · obtain ⟨passed, rest, rfl, hp⟩ := exists_passes ho hnil h0
        have hpos := List.length_pos_iff.2 hp.nonempty
        have hlt : rest.length < n := by
          rw [← hn, List.length_append]
          omega
        rcases ih _ hlt rest rfl with
          ⟨inner, more, hrest, hfirst, hmark, hfinish⟩ | ⟨hnone, hmark, hfinish⟩
        · refine .inl ⟨passed ++ inner, more, by rw [hrest, List.append_assoc], ?_, ?_, ?_⟩
          · rw [List.length_append]
            exact hp.closesFirst hfirst
          · rw [hp.mark_eq, hmark]
            simp only [hidden_append, List.append_assoc]
          · rw [hp.finish_eq, hfinish]
        · refine .inr ⟨hp.never_closes hnone, ?_, ?_⟩
          · rw [hp.mark_eq, hmark, hidden_append]
          · rw [hp.finish_eq, hfinish]

theorem read_of_closesFirst (ho : Opens region opening)
    (h : ClosesFirst region (inner ++ (region.closing ++ rest)) inner.length) :
    mark region (inner ++ (region.closing ++ rest)) =
        hidden (inner ++ region.closing) ++ mark .code rest ∧
      finish region (inner ++ (region.closing ++ rest)) = finish .code rest := by
  rcases closed_or_unclosed ho (inner ++ (region.closing ++ rest)) with
    ⟨inner', rest', he, hfirst, hmark, hfinish⟩ | ⟨hnone, -⟩
  · obtain ⟨rfl, hbehind⟩ := List.append_inj he (h.unique hfirst)
    cases List.append_cancel_left hbehind
    exact ⟨hmark, hfinish⟩
  · exact absurd h.1 (hnone _)

theorem read_of_unclosed (ho : Opens region opening) (h : ∀ place, ¬ClosesAt region text place) :
    mark region text = hidden text ∧ finish region text = region := by
  rcases closed_or_unclosed ho text with ⟨inner, _, _, hfirst, _⟩ | ⟨-, hmark⟩
  · exact absurd hfirst.1 (h _)
  · exact hmark

-- ---------------------------------------------------------------------------
-- One token
-- ---------------------------------------------------------------------------

variable {token : Token} {tokens : List Token}

def Token.marks (token : Token) : List Marked :=
  token.chars.map (⟨·, token.region == .code⟩)

theorem marks_of_opens (ho : Opens region opening) (chars : List Char) (closed : Bool) :
    Token.marks ⟨region, chars, closed⟩ = hidden chars := by
  rw [Token.marks, beq_eq_false_iff_ne.2 ho.ne_code]
  rfl

theorem Begins.chars_append (h : Begins text token rest) : token.chars ++ rest = text := by
  cases h <;> simp [Token.code]

theorem Begins.chars_ne_nil (h : Begins text token rest) : token.chars ≠ [] := by
  cases h with
  | code => nofun
  | closed ho => simp [ho.ne_nil]
  | unclosed ho => simp [ho.ne_nil]

theorem Begins.mark_eq (h : Begins text token rest) :
    mark .code text = token.marks ++ mark .code rest := by
  cases h with
  | code hc => exact mark_cons (step_code hc)
  | closed ho hfirst =>
    rw [ho.mark_eq, (read_of_closesFirst ho hfirst).1, marks_of_opens ho]
    simp [hidden]
  | unclosed ho hnone =>
    rw [ho.mark_eq, (read_of_unclosed ho hnone).1, marks_of_opens ho]
    simp [hidden, mark]

theorem Begins.finish_eq (h : Begins text token rest) :
    finish .code text = if token.closed then finish .code rest else token.region := by
  cases h with
  | code hc => exact finish_cons (step_code hc)
  | closed ho hfirst => exact (ho.finish_eq _).trans (read_of_closesFirst ho hfirst).2
  | unclosed ho hnone => exact (ho.finish_eq _).trans (read_of_unclosed ho hnone).2

theorem Begins.rest_eq_nil (h : Begins text token rest) (ho : token.closed = false) :
    rest = [] := by
  cases h with
  | code => cases ho
  | closed => cases ho
  | unclosed => rfl

theorem Begins.eq_code (h : Begins text token rest) (hr : token.region = .code) :
    ∃ c, token = .code c := by
  cases h with
  | code => exact ⟨_, rfl⟩
  | closed ho => exact absurd hr ho.ne_code
  | unclosed ho => exact absurd hr ho.ne_code

theorem exists_begins (hne : text ≠ []) : ∃ token rest, Begins text token rest := by
  by_cases h : ∃ region opening, Opens region opening ∧ opening <+: text
  · obtain ⟨region, opening, ho, behind, rfl⟩ := h
    rcases closed_or_unclosed ho behind with ⟨inner, rest, rfl, hfirst, -⟩ | ⟨hnone, -⟩
    · exact ⟨_, _, .closed ho hfirst⟩
    · exact ⟨_, _, .unclosed ho hnone⟩
  · obtain ⟨c, rest, rfl⟩ := List.exists_cons_of_ne_nil hne
    exact ⟨_, _, .code fun region opening ho hp => h ⟨region, opening, ho, hp⟩⟩

theorem Begins.unique {token' : Token} {rest' : List Char} (h : Begins text token rest)
    (h' : Begins text token' rest') : token = token' ∧ rest = rest' := by
  generalize ht : text = text' at h'
  cases h with
  | code hc =>
    cases h' with
    | code =>
      cases ht
      exact ⟨rfl, rfl⟩
    | closed ho => exact absurd ⟨_, ht.symm⟩ (hc _ _ ho)
    | unclosed ho => exact absurd ⟨_, ht.symm⟩ (hc _ _ ho)
  | closed ho hfirst =>
    cases h' with
    | code hc => exact absurd ⟨_, ht⟩ (hc _ _ ho)
    | closed ho' hfirst' =>
      obtain ⟨rfl, rfl⟩ := ho.unique ho' ⟨_, rfl⟩ ⟨_, ht.symm⟩
      have he := List.append_cancel_left ht
      rw [he] at hfirst
      obtain ⟨rfl, hbehind⟩ := List.append_inj he (hfirst.unique hfirst')
      cases List.append_cancel_left hbehind
      exact ⟨rfl, rfl⟩
    | unclosed ho' hnone =>
      obtain ⟨rfl, rfl⟩ := ho.unique ho' ⟨_, rfl⟩ ⟨_, ht.symm⟩
      exact absurd (List.append_cancel_left ht ▸ hfirst.1) (hnone _)
  | unclosed ho hnone =>
    cases h' with
    | code hc => exact absurd ⟨_, ht⟩ (hc _ _ ho)
    | closed ho' hfirst =>
      obtain ⟨rfl, rfl⟩ := ho.unique ho' ⟨_, rfl⟩ ⟨_, ht.symm⟩
      exact absurd (List.append_cancel_left ht ▸ hfirst.1) (hnone _)
    | unclosed ho' =>
      obtain ⟨rfl, rfl⟩ := ho.unique ho' ⟨_, rfl⟩ ⟨_, ht.symm⟩
      cases List.append_cancel_left ht
      exact ⟨rfl, rfl⟩

-- ---------------------------------------------------------------------------
-- All tokens of a text
-- ---------------------------------------------------------------------------

theorem exists_tokenized (text : List Char) : ∃ tokens, Tokenized text tokens := by
  induction hn : text.length using Nat.strongRecOn generalizing text with
  | _ n ih =>
    by_cases hnil : text = []
    · subst hnil
      exact ⟨[], .nil⟩
    · obtain ⟨token, rest, hb⟩ := exists_begins hnil
      have hpos := List.length_pos_iff.2 hb.chars_ne_nil
      have hlt : rest.length < n := by
        rw [← hn, ← hb.chars_append, List.length_append]
        omega
      obtain ⟨tokens, htokens⟩ := ih _ hlt rest rfl
      exact ⟨token :: tokens, .cons hb htokens⟩

theorem not_begins_nil : ¬Begins [] token rest := by
  intro h
  have happend := h.chars_append
  exact h.chars_ne_nil (List.append_eq_nil_iff.1 happend).1

theorem Tokenized.unique {tokens' : List Token} (h : Tokenized text tokens)
    (h' : Tokenized text tokens') : tokens = tokens' := by
  induction h generalizing tokens' with
  | nil =>
    cases h' with
    | nil => rfl
    | cons hb => exact absurd hb not_begins_nil
  | cons hb _ ih =>
    cases h' with
    | nil => exact absurd hb not_begins_nil
    | cons hb' h' =>
      obtain ⟨rfl, rfl⟩ := hb.unique hb'
      rw [ih h']

theorem Tokenized.flatMap_chars (h : Tokenized text tokens) :
    tokens.flatMap (·.chars) = text := by
  induction h with
  | nil => rfl
  | cons hb _ ih => rw [List.flatMap_cons, ih, hb.chars_append]

theorem Tokenized.mark_eq (h : Tokenized text tokens) :
    mark .code text = tokens.flatMap Token.marks := by
  induction h with
  | nil => rfl
  | cons hb _ ih => rw [hb.mark_eq, ih, List.flatMap_cons]

/-- The region in which the tokens leave a reader. -/
def finishOf (tokens : List Token) : Region :=
  match tokens.getLast? with
  | some token => if token.closed then .code else token.region
  | none => .code

theorem Tokenized.finish_eq (h : Tokenized text tokens) : finish .code text = finishOf tokens := by
  induction h with
  | nil => rfl
  | @cons text rest token tokens hb htokens ih =>
    rw [hb.finish_eq, ih]
    cases hc : token.closed with
    | true =>
      cases tokens with
      | nil => simp [finishOf, hc]
      | cons next tokens => simp [finishOf]
    | false =>
      -- Only the last token is left open.
      rw [hb.rest_eq_nil hc] at htokens
      cases htokens with
      | nil => simp [finishOf, hc]
      | cons hb' => exact absurd hb' not_begins_nil

theorem mem_codeFrom_iff {place : Nat} {c : Char} :
    (place, c) ∈ codeFrom text 0 ↔ (mark .code text)[place]? = some ⟨c, true⟩ := by
  simp only [codeFrom, List.drop_zero, List.mem_filterMap, Prod.exists,
    List.mem_zipIdx_iff_getElem?, Option.ite_none_right_eq_some, Option.some.injEq, Prod.mk.injEq]
  constructor
  · rintro ⟨⟨d, code⟩, i, hm, rfl, rfl, rfl⟩
    exact hm
  · exact fun hm => ⟨⟨c, true⟩, place, hm, rfl, rfl, rfl⟩

theorem pairwise_codeFrom (text : List Char) (start : Nat) :
    (codeFrom text start).Pairwise (·.1 < ·.1) := by
  have hplaces : ((mark .code (text.drop start)).zipIdx start).Pairwise (·.2 < ·.2) := by
    refine List.Pairwise.of_map Prod.snd (fun _ _ h => h) ?_
    rw [List.zipIdx_map_snd]
    exact List.pairwise_lt_range'
  rw [codeFrom, List.pairwise_filterMap]
  refine hplaces.imp fun {a b} hlt x hx y hy => ?_
  obtain ⟨-, ⟨⟩⟩ := Option.ite_none_right_eq_some.1 hx
  obtain ⟨-, ⟨⟩⟩ := Option.ite_none_right_eq_some.1 hy
  exact hlt

/-- A character of code is a token of its own. -/
theorem Tokenized.code_iff (h : Tokenized text tokens) {place : Nat} {c : Char} :
    (mark .code text)[place]? = some ⟨c, true⟩ ↔ ∃ before behind,
      tokens = before ++ .code c :: behind ∧ (before.flatMap (·.chars)).length = place := by
  induction h generalizing place with
  | nil => simp [mark]
  | @cons text rest token tokens hb _ ih =>
    have hl : token.marks.length = token.chars.length := List.length_map ..
    rw [hb.mark_eq]
    constructor
    · intro hm
      rcases Nat.lt_or_ge place token.marks.length with hlt | hge
      · rw [List.getElem?_append_left hlt, Token.marks, List.getElem?_map] at hm
        obtain ⟨d, hd, hmarked⟩ := Option.map_eq_some_iff.1 hm
        obtain ⟨rfl, hr⟩ := Marked.mk.inj hmarked
        obtain ⟨d', rfl⟩ := hb.eq_code (eq_of_beq hr)
        cases place with
        | zero =>
          cases hd
          exact ⟨[], tokens, rfl, rfl⟩
        | succ => cases hd
      · rw [List.getElem?_append_right hge] at hm
        obtain ⟨before, behind, rfl, hplace⟩ := ih.1 hm
        refine ⟨token :: before, behind, rfl, ?_⟩
        rw [List.flatMap_cons, List.length_append]
        omega
    · rintro ⟨before, behind, he, rfl⟩
      cases before with
      | nil =>
        obtain ⟨rfl, rfl⟩ := List.cons.inj he
        rfl
      | cons first before =>
        obtain ⟨rfl, rfl⟩ := List.cons.inj he
        rw [List.flatMap_cons, List.length_append, ← hl,
          List.getElem?_append_right (Nat.le_add_right ..), Nat.add_sub_cancel_left]
        exact ih.2 ⟨before, behind, rfl, rfl⟩

theorem Tokenized.codeFlags_eq (h : Tokenized text tokens) :
    codeFlags text =
      tokens.flatMap fun token => List.replicate token.chars.length (token.region == .code) := by
  rw [codeFlags, h.mark_eq, List.map_flatMap]
  refine congrArg tokens.flatMap (funext fun token => ?_)
  rw [Token.marks, List.map_map]
  exact List.map_const' ..

/-- Every text is one row of tokens and no other: comments, quoted segments and single characters
of code at which none of these begins. The single characters are what is found as code, each at
its place and in order, and what is flagged as code; and a reader of the text is left in the region
of the last token if that is not closed, and in code otherwise. The bytes of a text are such a text
too, when each is read as the character of its code. -/
theorem tokens_of_text (text : List Char) :
    ∃ tokens, Tokenized text tokens ∧ (∀ other, Tokenized text other → other = tokens) ∧
      tokens.flatMap (·.chars) = text ∧
      (∀ place c, (place, c) ∈ codeFrom text 0 ↔ ∃ before behind,
        tokens = before ++ .code c :: behind ∧ (before.flatMap (·.chars)).length = place) ∧
      (codeFrom text 0).Pairwise (·.1 < ·.1) ∧
      codeFlags text =
        tokens.flatMap (fun token =>
          List.replicate token.chars.length (token.region == .code)) ∧
      finish .code text =
        match tokens.getLast? with
        | some token => if token.closed then .code else token.region
        | none => .code := by
  obtain ⟨tokens, h⟩ := exists_tokenized text
  refine ⟨tokens, h, fun other ho => ho.unique h, h.flatMap_chars, fun place c => ?_,
    pairwise_codeFrom text 0, h.codeFlags_eq, h.finish_eq⟩
  rw [mem_codeFrom_iff, h.code_iff]

/-- An escaped quote, a comment that its own opening does not close, and a dash on its own. -/
example : codeFlags "'\\''/*/*/-".toList = List.replicate 9 false ++ [true] := by decide

end ViewRollout.Sql
