import ViewRollout.Proofs.Sql.Group
import ViewRollout.Text.Blank

/-!
# Balanced texts

A text whose code closes what it opens and nothing else can be wrapped in
parentheses: on lines of their own they form one group, whether the text ends
in code or in a comment that the line break ends.
-/

namespace ViewRollout.Sql

open Text

def Marked.opens (m : Marked) : Bool :=
  m.code && m.char == '('

def Marked.closes (m : Marked) : Bool :=
  m.code && m.char == ')'

/-- No prefix closes more groups than it opens, and the whole closes all that it opens. -/
def Balanced (marks : List Marked) : Prop :=
  (∀ n, (marks.take n).countP Marked.closes ≤ (marks.take n).countP Marked.opens) ∧
    marks.countP Marked.closes = marks.countP Marked.opens

instance (marks : List Marked) : Decidable (Balanced marks) :=
  decidable_of_iff
    ((∀ n ≤ marks.length,
        (marks.take n).countP Marked.closes ≤ (marks.take n).countP Marked.opens) ∧
      marks.countP Marked.closes = marks.countP Marked.opens) <| by
    refine and_congr_left fun he => ⟨fun h n => ?_, fun h n _ => h n⟩
    rcases Nat.le_total n marks.length with hn | hn
    · exact h n hn
    · rw [List.take_of_length_le hn]
      exact Nat.le_of_eq he

-- ---------------------------------------------------------------------------
-- Counting depth
-- ---------------------------------------------------------------------------

theorem Marked.closes_of_opens {m : Marked} (h : m.opens = true) : m.closes = false := by
  simp only [Marked.opens, Bool.and_eq_true, beq_iff_eq] at h
  simp [Marked.closes, h.2]

theorem depthAfter?_opens {m : Marked} (h : m.opens = true) (depth : Nat) :
    depthAfter? depth m = some (depth + 1) :=
  if_pos h

theorem depthAfter?_closes {m : Marked} (h : m.closes = true) (depth : Nat) :
    depthAfter? (depth + 1) m = some depth := by
  have ho : ¬(m.code && m.char == '(') = true := by
    intro ho
    rw [Marked.closes_of_opens (m := m) ho] at h
    cases h
  unfold depthAfter?
  rw [if_neg ho]
  exact if_pos h

theorem depthAfter?_idle {m : Marked} (ho : m.opens = false) (hc : m.closes = false)
    (depth : Nat) : depthAfter? depth m = some depth := by
  have ho' : ¬(m.code && m.char == '(') = true := by rw [← Marked.opens, ho]; decide
  have hc' : ¬(m.code && m.char == ')') = true := by rw [← Marked.closes, hc]; decide
  unfold depthAfter?
  rw [if_neg ho', if_neg hc']

theorem depthOver?_of_le
    (h : ∀ n, (marks.take n).countP Marked.closes ≤ depth + (marks.take n).countP Marked.opens) :
    depthOver? depth marks =
      some (depth + marks.countP Marked.opens - marks.countP Marked.closes) := by
  induction marks generalizing depth with
  | nil => rfl
  | cons m marks ih =>
    have hstep (n : Nat) := h (n + 1)
    simp only [List.take_succ_cons, List.countP_cons] at hstep
    rw [depthOver?, List.countP_cons, List.countP_cons]
    cases ho : m.opens with
    | true =>
      have hc := m.closes_of_opens ho
      simp only [ho, hc, if_true, Bool.false_eq_true, if_false, Nat.add_zero] at hstep ⊢
      rw [depthAfter?_opens ho, Option.bind_some, ih fun n => by have := hstep n; omega]
      congr 1
      omega
    | false =>
      cases hc : m.closes with
      | true =>
        simp only [ho, hc, if_true, Bool.false_eq_true, if_false, Nat.add_zero] at hstep ⊢
        cases depth with
        | zero => exact absurd (hstep 0) (by simp)
        | succ depth =>
          rw [depthAfter?_closes hc, Option.bind_some, ih fun n => by have := hstep n; omega]
          congr 1
          omega
      | false =>
        simp only [ho, hc, if_false, Bool.false_eq_true, Nat.add_zero] at hstep ⊢
        rw [depthAfter?_idle ho hc, Option.bind_some, ih hstep]

theorem Balanced.depthOver?_eq (h : Balanced marks) : depthOver? 0 marks = some 0 := by
  rw [depthOver?_of_le fun n => by simpa using h.1 n, h.2]
  simp

theorem depthOver?_of_no_paren (h : ∀ m ∈ marks, m.char ≠ '(' ∧ m.char ≠ ')') (depth : Nat) :
    depthOver? depth marks = some depth := by
  induction marks with
  | nil => rfl
  | cons m marks ih =>
    have hm := h m (List.mem_cons_self ..)
    rw [depthOver?, depthAfter?_idle (by simp [Marked.opens, hm.1])
      (by simp [Marked.closes, hm.2]), Option.bind_some,
      ih fun m hm => h m (List.mem_cons_of_mem _ hm)]

theorem closing?_append_of_no_paren {more : List Marked}
    (h : ∀ m ∈ more, m.char ≠ '(' ∧ m.char ≠ ')') (marks : List Marked) (depth : Nat) :
    closing? depth (marks ++ more) = closing? depth marks := by
  induction marks generalizing depth with
  | nil =>
    have hover := depthOver?_of_no_paren h depth
    rw [List.nil_append, ← List.append_nil more, closing?_append_of_depthOver? hover]
    rfl
  | cons m marks ih =>
    rw [List.cons_append, closing?, closing?]
    cases depthAfter? depth m with
    | none => rfl
    | some inner => exact congrArg (Option.map (· + 1)) (ih inner)

-- ---------------------------------------------------------------------------
-- Text that ends lines at most
-- ---------------------------------------------------------------------------

/-- A character that opens and closes nothing but, at most, ends a line. -/
def Idle (c : Char) : Prop :=
  pairs c = false ∧ pairsBack c = false ∧ isQuote c = false ∧ c ≠ '(' ∧ c ≠ ')'

theorem idle_of_isBlank (h : isBlank c = true) : Idle c := by
  have hn : c ∉ ['-', '/', '*', '\\', backtick, '\'', '"', '(', ')'] :=
    not_mem_of_class h (by decide)
  simp only [List.mem_cons, not_or] at hn
  simp [Idle, pairs, pairsBack, isQuote, hn]

theorem head_not_pairsBack {text : List Char} (hi : ∀ c ∈ text, Idle c) :
    text.head?.any pairsBack = false := by
  cases text with
  | nil => rfl
  | cons c text => exact (hi c (List.mem_cons_self ..)).2.1

/-- Text that ends lines at most changes no mark before it and has no parentheses. -/
theorem exists_mark_append {tail : List Char} (hi : ∀ c ∈ tail, Idle c) (query : List Char) :
    ∃ marks, mark .code (query ++ tail) = mark .code query ++ marks ∧
      ∀ m ∈ marks, m.char ≠ '(' ∧ m.char ≠ ')' := by
  refine ⟨(Cursor.code.after tail.head? query).marks none tail, ?_, fun m hm => ?_⟩
  · rw [mark_code, Cursor.marks_append, Option.or_none,
      (Cursor.code_of_not_pairsBack (head_not_pairsBack hi) query).1]
  · have hc : m.char ∈ tail := by
      rw [← Cursor.map_char_marks (Cursor.code.after tail.head? query) none tail]
      exact List.mem_map_of_mem hm
    exact (hi _ hc).2.2.2

theorem closing?_append_idle {tail : List Char} (hi : ∀ c ∈ tail, Idle c) (query : List Char) :
    closing? 0 (mark .code (query ++ tail)) = closing? 0 (mark .code query) := by
  obtain ⟨marks, hmarks, hno⟩ := exists_mark_append hi query
  rw [hmarks, closing?_append_of_no_paren hno]

theorem Region.endsInCode_of_step (hr : Region.Reached region) (hc : Idle c)
    (h : (region.step c none).1.EndsInCode) : region.EndsInCode := by
  obtain ⟨hp, -, hq, -, -⟩ := hc
  cases region with
  | code => exact .inl rfl
  | lineComment => exact .inr rfl
  | quoted quote =>
    have hne : c ≠ quote := ne_of_isQuote hr hq
    simp [Region.step, hne, Region.EndsInCode] at h
  | blockComment =>
    simp [Region.step, Region.EndsInCode] at h

theorem Cursor.endsInCode_of_after {s : Cursor} (hr : s.region.Reached)
    (hi : ∀ c ∈ text, Idle c) (h : (s.after none text).region.EndsInCode) :
    s.region.EndsInCode := by
  induction text generalizing s with
  | nil => exact h
  | cons c text ih =>
    have hc := hi c (List.mem_cons_self ..)
    have hstep : (s.move c (text.head?.or none)).region = s.region ∨
        (s.move c (text.head?.or none)).region = (s.region.step c none).1 := by
      unfold Cursor.move
      split
      · exact .inl rfl
      · exact .inr (by rw [Region.step_of_not_pairs hc.1])
    have hrest := ih (Cursor.reached_move hr c _) (fun d hd => hi d (List.mem_cons_of_mem _ hd)) h
    rcases hstep with he | he
    · rwa [he] at hrest
    · rw [he] at hrest
      exact Region.endsInCode_of_step hr hc hrest

theorem Cursor.move_newline {s : Cursor} (hs : s.taken = false) (h : s.region.EndsInCode)
    (next : Option Char) : s.move '\n' next = Cursor.code := by
  obtain ⟨region, taken⟩ := s
  cases hs
  rcases h with h | h <;> cases h
  · simp [Cursor.move, Region.step, Cursor.code, isQuote, backtick]
  · simp [Cursor.move, Region.step, Cursor.code]

-- ---------------------------------------------------------------------------
-- Wrapping
-- ---------------------------------------------------------------------------

theorem depthOver?_of_balanced_append {query tail : List Char} (hi : ∀ c ∈ tail, Idle c)
    (hb : Balanced (mark .code (query ++ tail))) :
    depthOver? 0 (mark .code query) = some 0 := by
  have hd := hb.depthOver?_eq
  obtain ⟨marks, hmarks, hno⟩ := exists_mark_append hi query
  rw [hmarks, depthOver?_append] at hd
  obtain ⟨left, hl, hrest⟩ := Option.bind_eq_some_iff.1 hd
  rw [depthOver?_of_no_paren hno] at hrest
  rw [hl, hrest]

theorem endsInCode_of_append {query tail : List Char} (hi : ∀ c ∈ tail, Idle c)
    (he : (finish .code (query ++ tail)).EndsInCode) : (finish .code query).EndsInCode := by
  rw [← (Cursor.code_of_not_pairsBack (head_not_pairsBack hi) query).2]
  refine Cursor.endsInCode_of_after (Cursor.reached_after (s := Cursor.code) trivial _ _) hi ?_
  rwa [finish_code, Cursor.after_append, Option.or_none] at he

theorem closesAtEnd_lines {query : List Char} (hd : depthOver? 0 (mark .code query) = some 0)
    (he : (finish .code query).EndsInCode) :
    ClosesAtEnd ('\n' :: (query ++ ['\n', ')'])) := by
  obtain ⟨hm, hr⟩ : Cursor.code.marks (some '\n') query = mark .code query ∧
      (Cursor.code.after (some '\n') query).region = finish .code query :=
    Cursor.code_of_not_pairsBack rfl query
  rw [← hm] at hd
  rw [← hr] at he
  have hback : (Cursor.code.after (some '\n') query).move '\n' (some ')') = Cursor.code :=
    Cursor.move_newline (Cursor.taken_after_of_endsInCode rfl rfl he) he _
  have hstays : leavesCode '\n' = false := by decide
  have hmarks : mark .code ('\n' :: (query ++ ['\n', ')'])) =
      (⟨'\n', true⟩ :: (Cursor.code.marks (some '\n') query ++
        [⟨'\n', (Cursor.code.after (some '\n') query).isCode '\n' (some ')')⟩])) ++
          [⟨')', true⟩] := by
    rw [mark_code, Cursor.marks, Cursor.move_code_of_stays hstays, Cursor.isCode_of_stays hstays,
      Cursor.marks_append]
    simp only [Cursor.marks, List.head?_cons, Option.some_or, hback, List.cons_append,
      List.append_assoc, List.nil_append]
    rfl
  have hover : depthOver? 0 (⟨'\n', true⟩ :: (Cursor.code.marks (some '\n') query ++
      [⟨'\n', (Cursor.code.after (some '\n') query).isCode '\n' (some ')')⟩])) = some 0 := by
    rw [depthOver?, depthAfter?_idle rfl rfl, Option.bind_some, depthOver?_append, hd,
      Option.bind_some]
    exact depthOver?_of_no_paren (by simp) 0
  refine ⟨query.length + 2, ?_, by simp⟩
  rw [hmarks, closing?_append_of_depthOver? hover]
  simp [closing?, depthAfter?]

/-- A balanced text without some idle characters of its end, on lines of its own, is closed by
the parenthesis behind it. -/
theorem closesAtEnd_of_balanced {query tail : List Char} (hi : ∀ c ∈ tail, Idle c)
    (hb : Balanced (mark .code (query ++ tail)))
    (he : (finish .code (query ++ tail)).EndsInCode) :
    ClosesAtEnd ('\n' :: (query ++ ['\n', ')'])) :=
  closesAtEnd_lines (depthOver?_of_balanced_append hi hb) (endsInCode_of_append hi he)

end ViewRollout.Sql
