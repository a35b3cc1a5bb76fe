import ViewRollout.Sql.Lexer

/-!
# Reading a text piece by piece

`mark` and `finish` take one or two characters at a time, so a text cannot be
cut anywhere. A cursor keeps what such a cut has to remember: the region, and
whether the next character was taken along with the one before. Marks and
regions of `a ++ b` are then those of `a`, read with the first character of
`b` in view, and those of `b`, read from where `a` left the cursor.
-/

namespace ViewRollout.Sql

/-- Where a reader stands between two characters. -/
structure Cursor where
  region : Region
  /-- The next character was taken along with the one before it. -/
  taken : Bool
  deriving DecidableEq, Repr

namespace Cursor

def code : Cursor := ⟨.code, false⟩

def move (s : Cursor) (c : Char) (next : Option Char) : Cursor :=
  if s.taken then ⟨s.region, false⟩ else ⟨(s.region.step c next).1, (s.region.step c next).2⟩

def isCode (s : Cursor) (c : Char) (next : Option Char) : Bool :=
  !s.taken && s.region == .code && (s.region.step c next).1 == .code

/-- The marks of a text that `next` follows. -/
def marks (s : Cursor) (next : Option Char) : List Char → List Marked
  | [] => []
  | c :: rest =>
    ⟨c, s.isCode c (rest.head?.or next)⟩ :: (s.move c (rest.head?.or next)).marks next rest

def after (s : Cursor) (next : Option Char) : List Char → Cursor
  | [] => s
  | c :: rest => (s.move c (rest.head?.or next)).after next rest

end Cursor

-- ---------------------------------------------------------------------------
-- The two views agree
-- ---------------------------------------------------------------------------

theorem Region.step_none_snd (region : Region) (c : Char) : (region.step c none).2 = false := by
  cases region <;> simp only [Region.step]
  all_goals repeat' split
  all_goals simp_all

theorem Region.step_taken {region : Region} {c : Char} {next : Option Char} {after : Region}
    (h : region.step c next = (after, true)) : (region == .code && after == .code) = false := by
  cases region <;> simp only [Region.step] at h <;> repeat' split at h
  all_goals cases h
  all_goals rfl

theorem mark_eq_marks (region : Region) (text : List Char) :
    mark region text = Cursor.marks ⟨region, false⟩ none text := by
  fun_induction mark region text with
  | case1 => rfl
  | case2 region c => simp [Cursor.marks, Cursor.isCode]
  | case3 region c d rest after h ih =>
    have hc := Region.step_taken h
    simp only [Cursor.marks, Cursor.isCode, Cursor.move, List.head?_cons, Option.some_or, h, ih]
    simp [hc]
  | case4 region c d rest after h ih => simp [Cursor.marks, Cursor.isCode, Cursor.move, h, ih]

theorem finish_eq_after (region : Region) (text : List Char) :
    finish region text = (Cursor.after ⟨region, false⟩ none text).region := by
  fun_induction finish region text with
  | case1 => rfl
  | case2 region c => simp [Cursor.after, Cursor.move]
  | case3 region c d rest after h ih => simp [Cursor.after, Cursor.move, h, ih]
  | case4 region c d rest after h ih => simp [Cursor.after, Cursor.move, h, ih]

theorem mark_code (text : List Char) : mark .code text = Cursor.code.marks none text :=
  mark_eq_marks .code text

theorem finish_code (text : List Char) :
    finish .code text = (Cursor.code.after none text).region :=
  finish_eq_after .code text

-- ---------------------------------------------------------------------------
-- Cutting a text
-- ---------------------------------------------------------------------------

theorem head?_append_or (a b : List Char) (next : Option Char) :
    (a ++ b).head?.or next = a.head?.or (b.head?.or next) := by
  cases a <;> simp

theorem Cursor.marks_append (s : Cursor) (next : Option Char) (a b : List Char) :
    s.marks next (a ++ b) =
      s.marks (b.head?.or next) a ++ (s.after (b.head?.or next) a).marks next b := by
  induction a generalizing s with
  | nil => rfl
  | cons c a ih =>
    simp only [List.cons_append, Cursor.marks, Cursor.after, head?_append_or, ih]

theorem Cursor.after_append (s : Cursor) (next : Option Char) (a b : List Char) :
    s.after next (a ++ b) = (s.after (b.head?.or next) a).after next b := by
  induction a generalizing s with
  | nil => rfl
  | cons c a ih => simp only [List.cons_append, Cursor.after, head?_append_or, ih]

@[simp] theorem Cursor.length_marks (s : Cursor) (next : Option Char) (text : List Char) :
    (s.marks next text).length = text.length := by
  induction text generalizing s with
  | nil => rfl
  | cons c text ih => simp [Cursor.marks, ih]

@[simp] theorem Cursor.map_char_marks (s : Cursor) (next : Option Char) (text : List Char) :
    (s.marks next text).map (·.char) = text := by
  induction text generalizing s with
  | nil => rfl
  | cons c text ih => simp [Cursor.marks, ih]

-- ---------------------------------------------------------------------------
-- Characters that pair
-- ---------------------------------------------------------------------------

/-- The characters that may take the next one along. -/
def pairs (c : Char) : Bool :=
  c == '-' || c == '/' || c == '*' || c == '\\'

theorem Region.step_of_not_pairs (hc : pairs c = false) (region : Region)
    (next : Option Char) : region.step c next = region.step c none := by
  simp only [pairs, Bool.or_eq_false_iff, beq_eq_false_iff_ne] at hc
  obtain ⟨⟨⟨h₁, h₂⟩, h₃⟩, h₄⟩ := hc
  cases region <;> simp [Region.step, h₁, h₂, h₃, h₄]

theorem Cursor.marks_concat (hc : pairs c = false) (s : Cursor) (next : Option Char)
    (text : List Char) : s.marks next (text ++ [c]) = s.marks none (text ++ [c]) := by
  rw [Cursor.marks_append, Cursor.marks_append]
  simp [Cursor.marks, Cursor.isCode, Region.step_of_not_pairs hc _ next]

theorem Cursor.after_concat (hc : pairs c = false) (s : Cursor) (next : Option Char)
    (text : List Char) : s.after next (text ++ [c]) = s.after none (text ++ [c]) := by
  rw [Cursor.after_append, Cursor.after_append]
  simp [Cursor.after, Cursor.move, Region.step_of_not_pairs hc _ next]

theorem Cursor.taken_after_concat (hc : pairs c = false) (s : Cursor) (next : Option Char)
    (text : List Char) : (s.after next (text ++ [c])).taken = false := by
  rw [Cursor.after_append]
  simp only [Cursor.after, Cursor.move]
  split
  · rfl
  · rw [Region.step_of_not_pairs hc, Region.step_none_snd]

-- ---------------------------------------------------------------------------
-- Characters that stay in code
-- ---------------------------------------------------------------------------

/-- The characters that may lead a reader out of code. -/
def leavesCode (c : Char) : Bool :=
  c == '-' || c == '/' || isQuote c

theorem Region.step_code_of_stays (h : leavesCode c = false) (next : Option Char) :
    Region.code.step c next = (.code, false) := by
  simp only [leavesCode, Bool.or_eq_false_iff, beq_eq_false_iff_ne] at h
  obtain ⟨⟨h₁, h₂⟩, hq⟩ := h
  simp [Region.step, h₁, h₂, hq]

theorem Cursor.move_code_of_stays (h : leavesCode c = false) (next : Option Char) :
    Cursor.code.move c next = Cursor.code := by
  simp [Cursor.move, Cursor.code, Region.step_code_of_stays h]

theorem Cursor.isCode_of_stays (h : leavesCode c = false) (next : Option Char) :
    Cursor.code.isCode c next = true := by
  simp [Cursor.isCode, Cursor.code, Region.step_code_of_stays h]

theorem Cursor.marks_of_stays (h : ∀ c ∈ word, leavesCode c = false) (next : Option Char) :
    Cursor.code.marks next word = word.map (⟨·, true⟩) := by
  induction word with
  | nil => rfl
  | cons c word ih =>
    have hc := h c (List.mem_cons_self ..)
    rw [Cursor.marks, Cursor.move_code_of_stays hc, Cursor.isCode_of_stays hc,
      ih fun d hd => h d (List.mem_cons_of_mem _ hd)]
    rfl

theorem Cursor.after_of_stays (h : ∀ c ∈ word, leavesCode c = false) (next : Option Char) :
    Cursor.code.after next word = Cursor.code := by
  induction word with
  | nil => rfl
  | cons c word ih =>
    rw [Cursor.after, Cursor.move_code_of_stays (h c (List.mem_cons_self ..)),
      ih fun d hd => h d (List.mem_cons_of_mem _ hd)]

theorem not_mem_of_class {p : Char → Bool} {chars : List Char} (hc : p c = true)
    (hp : chars.any p = false) : c ∉ chars := by
  intro hm
  rw [List.any_eq_false] at hp
  exact hp c hm hc

/-- No character of a class that has none of the five leads out of code. -/
theorem stays_of_class {p : Char → Bool} (hc : p c = true)
    (hp : ['-', '/', backtick, '\'', '"'].any p = false) : leavesCode c = false := by
  have hn := not_mem_of_class hc hp
  simp only [List.mem_cons, not_or] at hn
  simp [leavesCode, isQuote, hn]

-- ---------------------------------------------------------------------------
-- Reading on from code
-- ---------------------------------------------------------------------------

theorem Cursor.eq_code {s : Cursor} (hr : s.region = .code) (ht : s.taken = false) :
    s = Cursor.code := by
  obtain ⟨region, taken⟩ := s
  cases hr
  cases ht
  rfl

theorem Cursor.eq_code_of_isCode {s : Cursor} (h : s.isCode c next = true) : s = Cursor.code := by
  simp only [Cursor.isCode, Bool.and_eq_true, Bool.not_eq_true', beq_iff_eq] at h
  exact Cursor.eq_code h.1.2 h.1.1

/-- Where a marked character is code, a reader that begins there sees what the first one sees. -/
theorem Cursor.after_eq_code {s : Cursor} {a b : List Char} {next : Option Char}
    (h : (s.marks next (a ++ b))[a.length]?.any (·.code) = true) :
    s.after (b.head?.or next) a = Cursor.code := by
  have hl : (s.marks (b.head?.or next) a).length = a.length := Cursor.length_marks ..
  rw [Cursor.marks_append, List.getElem?_append_right (Nat.le_of_eq hl), hl, Nat.sub_self] at h
  cases b with
  | nil => simp [Cursor.marks] at h
  | cons c b => exact Cursor.eq_code_of_isCode (by simpa [Cursor.marks] using h)

theorem mark_append_of_code {a b : List Char}
    (h : (mark .code (a ++ b))[a.length]?.any (·.code) = true) :
    mark .code (a ++ b) = Cursor.code.marks b.head? a ++ mark .code b := by
  rw [mark_code] at h ⊢
  rw [Cursor.marks_append, Cursor.after_eq_code h, Option.or_none, mark_code]

theorem lt_length_of_code (h : (mark .code text)[place]?.any (·.code) = true) :
    place < text.length := by
  rcases Nat.lt_or_ge place text.length with hlt | hge
  · exact hlt
  · rw [List.getElem?_eq_none (by rw [length_mark]; exact hge)] at h
    cases h

theorem mark_eq_take_append_drop (h : (mark .code text)[place]?.any (·.code) = true) :
    mark .code text =
      Cursor.code.marks (text.drop place).head? (text.take place) ++
        mark .code (text.drop place) := by
  have hl : (text.take place).length = place := by
    rw [List.length_take, Nat.min_eq_left (Nat.le_of_lt (lt_length_of_code h))]
  conv => lhs; rw [← List.take_append_drop place text]
  refine mark_append_of_code ?_
  rw [List.take_append_drop, hl]
  exact h

-- ---------------------------------------------------------------------------
-- What may follow a cut
-- ---------------------------------------------------------------------------

/-- The characters that may be taken along to open or close a comment. -/
def pairsBack (c : Char) : Bool :=
  c == '-' || c == '/' || c == '*'

/-- A region that a text read from code can reach: only quotes open quoted segments. -/
def Region.Reached : Region → Prop
  | .quoted quote => isQuote quote = true
  | _ => True

theorem ne_of_isQuote (h : isQuote q = true) (hc : isQuote c = false) : c ≠ q := by
  rintro rfl
  rw [h] at hc
  cases hc

theorem Region.Reached.step (h : Region.Reached region) (c : Char) (next : Option Char) :
    (region.step c next).1.Reached := by
  cases region <;> simp only [Region.step]
  all_goals repeat' split
  all_goals trivial

theorem Cursor.reached_move {s : Cursor} (h : s.region.Reached) (c : Char) (next : Option Char) :
    (s.move c next).region.Reached := by
  unfold Cursor.move
  split
  · exact h
  · exact h.step c next

theorem Cursor.reached_after {s : Cursor} (h : s.region.Reached) (next : Option Char)
    (text : List Char) : (s.after next text).region.Reached := by
  induction text generalizing s with
  | nil => exact h
  | cons c text ih => exact ih (Cursor.reached_move h c _)

/-- The characters that lead a reader from one region into another, or take the next one along. -/
def steering : List Char :=
  ['-', '/', '*', '\\', backtick, '\'', '"', '\n']

/-- All others leave a reader where it is. -/
theorem Region.step_of_not_steering (hr : Region.Reached region) (h : c ∉ steering)
    (next : Option Char) : region.step c next = (region, false) := by
  simp only [steering, List.mem_cons, List.not_mem_nil, or_false, not_or] at h
  obtain ⟨hdash, hslash, hstar, hback, htick, hsingle, hdouble, hline⟩ := h
  have hquote : isQuote c = false := by simp [isQuote, htick, hsingle, hdouble]
  cases region with
  | code => simp [Region.step, hdash, hslash, hquote]
  | quoted quote => simp [Region.step, hback, ne_of_isQuote hr hquote]
  | lineComment => simp [Region.step, hline]
  | blockComment => simp [Region.step, hstar]

/-- Characters that do not pair back are all the same to the one before them, but for whether
a backslash takes them along. -/
theorem Region.step_fst_of_not_pairsBack (hr : Region.Reached region)
    (h : next.any pairsBack = false) (c : Char) :
    (region.step c next).1 = (region.step c none).1 := by
  have hne : next ≠ some '-' ∧ next ≠ some '*' ∧ next ≠ some '/' := by
    refine ⟨?_, ?_, ?_⟩ <;> rintro rfl <;> exact absurd h (by decide)
  cases region with
  | code => simp [Region.step, hne.1, hne.2.1]
  | quoted quote =>
    have hq : '\\' ≠ quote := ne_of_isQuote hr (by decide)
    simp only [Region.step]
    by_cases hc : c = '\\'
    · subst hc
      simp [hq]
      split <;> rfl
    · simp [hc]
  | lineComment => rfl
  | blockComment => simp [Region.step, hne.2.2]

theorem Region.step_some_of_not_pairsBack (hd : pairsBack d = false) (he : pairsBack e = false)
    (region : Region) (c : Char) : region.step c (some d) = region.step c (some e) := by
  simp only [pairsBack, Bool.or_eq_false_iff, beq_eq_false_iff_ne] at hd he
  obtain ⟨⟨hd₁, hd₂⟩, hd₃⟩ := hd
  obtain ⟨⟨he₁, he₂⟩, he₃⟩ := he
  cases region <;> simp [Region.step, hd₁, hd₂, hd₃, he₁, he₂, he₃]

theorem Cursor.marks_of_not_pairsBack {s : Cursor} (hr : s.region.Reached)
    (h : next.any pairsBack = false) (text : List Char) :
    s.marks next text = s.marks none text ∧
      (s.after next text).region = (s.after none text).region := by
  induction text generalizing s with
  | nil => exact ⟨rfl, rfl⟩
  | cons c text ih =>
    cases text with
    | nil =>
      have hs := Region.step_fst_of_not_pairsBack hr h c
      simp only [Cursor.marks, Cursor.after, List.head?_nil, Option.none_or, Cursor.isCode,
        Cursor.move, hs, true_and]
      split <;> simp
    | cons d text =>
      have hi := ih (Cursor.reached_move hr c (some d))
      simp only [Cursor.marks, Cursor.after, List.head?_cons, Option.some_or] at hi ⊢
      exact ⟨by rw [hi.1], hi.2⟩

theorem Cursor.code_of_not_pairsBack (h : next.any pairsBack = false) (text : List Char) :
    Cursor.code.marks next text = mark .code text ∧
      (Cursor.code.after next text).region = finish .code text := by
  rw [mark_code, finish_code]
  exact Cursor.marks_of_not_pairsBack (s := Cursor.code) trivial h text

-- ---------------------------------------------------------------------------
-- Texts that end in code or in a line comment
-- ---------------------------------------------------------------------------

/-- The regions in which a text may end that a line break brings back to code. -/
def Region.EndsInCode (region : Region) : Prop :=
  region = .code ∨ region = .lineComment

instance (region : Region) : Decidable region.EndsInCode :=
  inferInstanceAs (Decidable (_ ∨ _))

theorem Region.step_snd_of_endsInCode {region : Region} {c : Char} {next : Option Char}
    (hn : next.any pairsBack = false)
    (h : (region.step c next).1.EndsInCode) : (region.step c next).2 = false := by
  have hne : next ≠ some '-' ∧ next ≠ some '*' ∧ next ≠ some '/' := by
    refine ⟨?_, ?_, ?_⟩ <;> rintro rfl <;> exact absurd hn (by decide)
  cases region with
  | code =>
    simp only [Region.step, hne.1, hne.2.1, and_false, if_false]
    split <;> rfl
  | lineComment => rfl
  | blockComment => simp [Region.step, hne.2.2]
  | quoted quote =>
    simp only [Region.step] at h ⊢
    split
    · rename_i ht
      simp [ht, Region.EndsInCode] at h
    · split <;> rfl

theorem Cursor.taken_after_of_endsInCode {s : Cursor} {next : Option Char} {text : List Char}
    (hs : s.taken = false) (hn : next.any pairsBack = false)
    (h : (s.after next text).region.EndsInCode) : (s.after next text).taken = false := by
  rcases text.eq_nil_or_concat with rfl | ⟨front, c, rfl⟩
  · exact hs
  · rw [List.concat_eq_append, Cursor.after_append] at h ⊢
    simp only [Cursor.after, List.head?_nil, Option.none_or, Cursor.move] at h ⊢
    split
    · rfl
    · rename_i ht
      rw [if_neg ht] at h
      exact Region.step_snd_of_endsInCode hn h

theorem Cursor.after_eq_code_iff (h : next.any pairsBack = false) :
    Cursor.code.after next text = Cursor.code ↔ finish .code text = .code := by
  have hr := (Cursor.code_of_not_pairsBack h text).2
  constructor
  · intro hc
    rw [← hr, hc]
    rfl
  · intro hf
    have hc := hr.trans hf
    exact Cursor.eq_code hc (Cursor.taken_after_of_endsInCode rfl h (.inl hc))

end ViewRollout.Sql
