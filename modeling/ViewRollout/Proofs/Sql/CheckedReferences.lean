import ViewRollout.Proofs.Sql.CheckedScan
import ViewRollout.Proofs.Sql.Reference

/-!
# References with checked accesses

The search for references by offsets, each access checked: the reads of single
bytes, the rest of the bytes behind a bracket or a dot, and the slices that
are the qualifier and the name. It gives the references of the text
(`qualifiedReferences?_eq`), so all of these are in range and begin and end at
characters.
-/

namespace ViewRollout.Sql

open Text

variable {bytes front text : List Char} {marks : List Marked} {offset start : Nat}

/-- A reference with the offsets at which it begins and ends. -/
structure Span where
  start : Nat
  stop : Nat
  qualifier : List Char
  name : List Char
  deriving DecidableEq, Repr

/-- The offset at which the run of identifier bytes ends that begins at the given one. -/
def identEnd? (bytes : List Char) (start : Nat) : Option Nat := do
  let behind ← between? start bytes.length bytes
  return ((behind.findIdx? (!isIdent ·)).map (start + ·)).getD bytes.length

/-- The reference whose `[` stands at `start`, when the next bracket stands at `close`. -/
def spanAt? (text : List Char) (start close : Nat) : Option (Option Span) := do
  let last ← (units text)[close]?
  if last ≠ ']' ∨ (units text)[close + 1]? ≠ some '.' then return none
  let stop ← identEnd? (units text) (close + 2)
  if stop ≤ close + 2 then return none
  let qualifier ← slice? (start + 1) close text
  let name ← slice? (close + 2) stop text
  return some ⟨start, stop, qualifier, name⟩

def spansIn? (text : List Char) : List (Nat × Char) → Option (List Span)
  | [] => some []
  | (start, c) :: code =>
    if c ≠ '[' then spansIn? text code else do
    let behind ← between? (start + 1) (units text).length (units text)
    match behind.findIdx? isBracket with
    -- Behind the text's last bracket no reference begins.
    | none => return []
    | some n =>
      let span? ← spanAt? text start (start + 1 + n)
      let spans ← spansIn? text code
      return span?.toList ++ spans

def qualifiedReferences? (text : List Char) : Option (List Span) := do
  let code ← scanFrom? .code (units text) 0
  spansIn? text code

/-- The reference by its offsets in the text. -/
def Reference.span (text : List Char) (r : Reference) : Span :=
  ⟨byteOffset text r.start, byteOffset text r.stop, r.qualifier, r.name⟩

-- ---------------------------------------------------------------------------
-- What follows a bracket
-- ---------------------------------------------------------------------------

theorem bytewise_isBracket : Bytewise isBracket := by
  refine bytewise_of_high (b := false) fun c hc => ?_
  have h₁ : c ≠ '[' := ne_of_high hc (by decide)
  have h₂ : c ≠ ']' := ne_of_high hc (by decide)
  simp [isBracket, h₁, h₂]

theorem isAscii_of_isBracket {c : Char} (hc : isBracket c = true) : c.toNat < 0x80 := by
  simp only [isBracket, Bool.or_eq_true, beq_iff_eq] at hc
  rcases hc with rfl | rfl <;> decide

theorem qualifiedIn?_closed {rest : List Char}
    (h : text.dropWhile (!isBracket ·) = ']' :: '.' :: rest) :
    qualifiedIn? text = if rest.takeWhile isIdent = [] then none
      else some (text.takeWhile (!isBracket ·), rest.takeWhile isIdent) := by
  simp only [qualifiedIn?, h]
  split
  · rename_i hn
    rw [if_pos hn]
  · rename_i hn
    rw [if_neg hn]

theorem qualifiedIn?_unclosed
    (h : ∀ rest, text.dropWhile (!isBracket ·) ≠ ']' :: '.' :: rest) :
    qualifiedIn? text = none := by
  unfold qualifiedIn?
  split
  · rename_i rest hd
    exact absurd hd (h rest)
  · rfl

theorem between?_to_end {back : List Char} (ht : text = front ++ back)
    (hs : byteSize front = offset) :
    between? offset (units text).length (units text) = some (units back) := by
  have hle : offset ≤ (units text).length := by
    rw [ht, length_units, byteSize_append, hs]
    exact Nat.le_add_right ..
  rw [between?, if_pos ⟨hle, Nat.le_refl _⟩, List.take_length, drop_units ht hs]

theorem identEnd?_of_append {name back : List Char} (ht : text = front ++ (name ++ back))
    (hs : byteSize front = offset) (hn : ∀ c ∈ name, isIdent c = true)
    (hb : back.head?.any isIdent = false) :
    identEnd? (units text) offset = some (offset + byteSize name) := by
  have hname : ∀ u ∈ units name, (!isIdent u) = false := fun u hu =>
    congrArg not (of_mem_units bytewise_isIdent hn u hu)
  have hback := (any_head?_units bytewise_isIdent back).trans hb
  rw [identEnd?, between?_to_end ht hs, Option.bind_eq_bind, Option.bind_some, units_append]
  cases hu : units back with
  | nil =>
    have hempty : byteSize back = 0 := by rw [← length_units, hu, List.length_nil]
    rw [List.append_nil, List.findIdx?_eq_none_iff.2 hname, length_units, ht]
    simp only [byteSize_append, hempty, hs]
    rfl
  | cons u more =>
    rw [hu] at hback
    have hu' : (!isIdent u) = true := by simpa using hback
    rw [findIdx?_first hname hu', length_units]
    rfl

/-- Without a dot behind a closing bracket there is no reference. -/
theorem spanAt?_of_no_dot {back : List Char} {c : Char} {close : Nat}
    (hc : isBracket c = true) (ht : text = front ++ c :: back) (hs : byteSize front = close)
    (hn : ¬(c = ']' ∧ back.head? = some '.')) : spanAt? text start close = some none := by
  obtain ⟨hlast, hnext⟩ := getElem?_units_ascii (isAscii_of_isBracket hc) ht hs
  have hnone : c ≠ ']' ∨ (units back).head? ≠ some '.' := by
    rw [ne_eq, ne_eq, head?_units_eq_iff (by decide)]
    exact Decidable.not_and_iff_or_not.1 hn
  rw [spanAt?, hlast, Option.bind_eq_bind, Option.bind_some, hnext, if_pos hnone]
  rfl

/-- With a dot there is one when an identifier follows. -/
theorem spanAt?_of_dot {qualifier rest : List Char} {close : Nat}
    (ht : text = front ++ ['['] ++ qualifier ++ ']' :: '.' :: rest) (hs : byteSize front = start)
    (hl : start + 1 + byteSize qualifier = close) :
    spanAt? text start close = some (if rest.takeWhile isIdent = [] then none else
      some ⟨start, close + 2 + byteSize (rest.takeWhile isIdent), qualifier,
        rest.takeWhile isIdent⟩) := by
  have hopen : byteSize (front ++ ['[']) = start + 1 := by
    rw [byteSize_append, hs]
    rfl
  have hclose : byteSize (front ++ ['['] ++ qualifier) = close := by
    rw [byteSize_append, hopen, hl]
  have hname : byteSize (front ++ ['['] ++ qualifier ++ [']', '.']) = close + 2 := by
    rw [byteSize_append, hclose]
    rfl
  have hat : text = front ++ ['['] ++ qualifier ++ [']', '.'] ++
      (rest.takeWhile isIdent ++ rest.dropWhile isIdent) := by
    rw [ht, List.takeWhile_append_dropWhile]
    simp
  obtain ⟨hlast, hnext⟩ := getElem?_units_ascii (by decide) ht hclose
  have hstop := identEnd?_of_append hat hname (List.all_eq_true.1 List.all_takeWhile)
    (head?_dropWhile_isIdent rest)
  rw [units_cons_of_ascii (by decide), List.head?_cons] at hnext
  rw [spanAt?, hlast, Option.bind_eq_bind, Option.bind_some, hnext, if_neg (by simp), hstop,
    Option.bind_eq_bind, Option.bind_some]
  by_cases hempty : rest.takeWhile isIdent = []
  · have hstop : close + 2 + byteSize [] ≤ close + 2 := Nat.le_refl _
    rw [if_pos hempty, hempty, if_pos hstop]
    rfl
  · have hpos := byteSize_pos hempty
    rw [List.append_assoc (front ++ ['['])] at ht
    have hfirst := slice?_eq_some_iff.2 ⟨_, _, ht, hopen, hl⟩
    have hsecond := slice?_eq_some_iff.2 ⟨_, _, hat, hname, rfl⟩
    rw [if_neg hempty, if_neg (by omega), hfirst, Option.bind_eq_bind, Option.bind_some, hsecond]
    rfl

theorem spanAt?_eq {qualifier back : List Char} {c : Char} {close : Nat}
    (ht : text = front ++ ['['] ++ qualifier ++ c :: back) (hs : byteSize front = start)
    (hl : start + 1 + byteSize qualifier = close) (hq : ∀ c ∈ qualifier, isBracket c = false)
    (hc : isBracket c = true) :
    spanAt? text start close =
      some ((qualifiedIn? (qualifier ++ c :: back)).map fun (qualifier, name) =>
        ⟨start, start + byteSize qualifier + byteSize name + 3, qualifier, name⟩) := by
  have hq' : ∀ c ∈ qualifier, (!isBracket c) = true := fun c hc => by simp [hq c hc]
  have hdrop : (qualifier ++ c :: back).dropWhile (!isBracket ·) = c :: back := by
    rw [List.dropWhile_append_of_pos hq', List.dropWhile_cons_of_neg (by simp [hc])]
  by_cases hdot : c = ']' ∧ back.head? = some '.'
  · obtain ⟨rfl, hdot⟩ := hdot
    obtain ⟨rest, rfl⟩ := List.head?_eq_some_iff.1 hdot
    have htake : (qualifier ++ ']' :: '.' :: rest).takeWhile (!isBracket ·) = qualifier := by
      rw [List.takeWhile_append_of_pos hq', List.takeWhile_cons_of_neg (by simp [hc]),
        List.append_nil]
    have hsize : close + 2 + byteSize (rest.takeWhile isIdent) =
        start + byteSize qualifier + byteSize (rest.takeWhile isIdent) + 3 := by omega
    rw [spanAt?_of_dot ht hs hl, qualifiedIn?_closed hdrop, htake, hsize]
    split <;> rfl
  · have hclose : byteSize (front ++ ['['] ++ qualifier) = close := by
      rw [byteSize_append, byteSize_append, hs, ← hl]
      rfl
    rw [spanAt?_of_no_dot hc ht hclose hdot, qualifiedIn?_unclosed]
    · rfl
    · intro rest hd
      rw [hdrop] at hd
      cases hd
      exact hdot ⟨rfl, rfl⟩

theorem Reference.byteSize_written (r : Reference) :
    byteSize r.written = byteSize r.qualifier + byteSize r.name + 3 := by
  have hopen : byteSize r.written = 1 + byteSize (r.qualifier ++ ']' :: '.' :: r.name) := rfl
  have hdot : byteSize (']' :: '.' :: r.name) = 1 + (1 + byteSize r.name) := rfl
  rw [hopen, byteSize_append, hdot]
  omega

theorem Reference.span_of_written {r : Reference} {back : List Char}
    (ht : text = front ++ (r.written ++ back)) (hl : front.length = r.start) :
    r.span text = ⟨byteSize front, byteSize (front ++ r.written), r.qualifier, r.name⟩ := by
  have hat : text = front ++ r.written ++ back := by rw [ht, List.append_assoc]
  have hstop : (front ++ r.written).length = r.stop := by
    rw [List.length_append, hl, r.stop_eq]
  rw [Reference.span, byteOffset_eq ht hl, byteOffset_eq hat hstop]

theorem Reference.span_eq {r : Reference} {back : List Char}
    (ht : text = front ++ (r.written ++ back)) (hl : front.length = r.start) :
    r.span text = ⟨byteSize front, byteSize front + byteSize r.qualifier + byteSize r.name + 3,
      r.qualifier, r.name⟩ := by
  rw [Reference.span_of_written ht hl, byteSize_append, r.byteSize_written]
  simp only [Nat.add_assoc]

/-- No reference begins at what is no `[` of the code. -/
theorem spansIn?_skip {skipped : List Marked} (h : ∀ marked ∈ skipped, marked ≠ ⟨'[', true⟩)
    (marks : List Marked) :
    spansIn? text (codeIn offset (skipped ++ marks)) =
      spansIn? text (codeIn (offset + skipped.length) marks) := by
  induction skipped generalizing offset with
  | nil => rfl
  | cons marked skipped ih =>
    obtain ⟨hm, hskipped⟩ := List.forall_mem_cons.1 h
    have hlength : offset + 1 + skipped.length = offset + (marked :: skipped).length := by
      rw [List.length_cons]
      omega
    have hrest : spansIn? text (codeIn (offset + 1) (skipped ++ marks)) =
        spansIn? text (codeIn (offset + (marked :: skipped).length) marks) := by
      rw [ih hskipped, hlength]
    obtain ⟨c, code⟩ := marked
    rw [List.cons_append, codeIn_cons]
    cases code with
    | false => exact hrest
    | true =>
      have hc : c ≠ '[' := fun hc => hm (by rw [hc])
      rw [if_pos rfl, spansIn?, if_pos hc]
      exact hrest

theorem begun?_open (marks : List Marked) :
    begun? ⟨'[', true⟩ marks = qualifiedIn? (marks.map (·.char)) := by
  rw [begun?, if_pos (by decide), qualified?_eq]

theorem referencesFrom_of_no_bracket {place : Nat} (h : ∀ m ∈ marks, m.char ≠ '[') :
    referencesFrom place marks = [] := by
  rw [← List.append_nil marks, referencesFrom_append_of_no_bracket h]
  rfl

/-- A `[` behind which there is no other bracket ends the search. -/
theorem spansIn?_last {rest : List Char} (ht : text = front ++ '[' :: rest)
    (hr : ∀ c ∈ rest, isBracket c = false) (code : List (Nat × Char)) :
    spansIn? text ((byteSize front, '[') :: code) = some [] := by
  have hat : text = front ++ ['['] ++ rest := by simp [ht]
  have hbehind := between?_to_end hat (byteSize_append front ['['])
  have hone : byteSize ['['] = 1 := rfl
  rw [hone] at hbehind
  rw [spansIn?, if_neg (by simp), hbehind, Option.bind_eq_bind, Option.bind_some,
    List.findIdx?_eq_none_iff.2 (of_mem_units bytewise_isBracket hr)]
  rfl

/-- Any other `[` begins a reference or not, and the search goes on. -/
theorem spansIn?_open {qualifier back : List Char} {c : Char}
    (ht : text = front ++ '[' :: (qualifier ++ c :: back))
    (hq : ∀ c ∈ qualifier, isBracket c = false) (hc : isBracket c = true)
    (code : List (Nat × Char)) :
    spansIn? text ((byteSize front, '[') :: code) =
      (spansIn? text code).map
        ((((qualifiedIn? (qualifier ++ c :: back)).map fun (qualifier, name) =>
          Reference.span text ⟨front.length, qualifier, name⟩).toList) ++ ·) := by
  have hat : text = front ++ ['['] ++ (qualifier ++ c :: back) := by simp [ht]
  have hbehind := between?_to_end hat (byteSize_append front ['['])
  have hone : byteSize ['['] = 1 := rfl
  have hclose : (units (qualifier ++ c :: back)).findIdx? isBracket =
      some (byteSize qualifier) := by
    rw [units_append, units_cons_of_ascii (isAscii_of_isBracket hc),
      findIdx?_first (of_mem_units bytewise_isBracket hq) hc, length_units]
  have hspan : (qualifiedIn? (qualifier ++ c :: back)).map (fun (qualifier, name) =>
        ⟨byteSize front, byteSize front + byteSize qualifier + byteSize name + 3, qualifier,
          name⟩) =
      (qualifiedIn? (qualifier ++ c :: back)).map fun (qualifier, name) =>
        Reference.span text ⟨front.length, qualifier, name⟩ := by
    refine Option.map_congr fun found hfound => ?_
    obtain ⟨-, last, hlast, -⟩ := qualifiedIn?_eq_some_iff.1 hfound
    have hat : text = front ++ ((Reference.mk front.length found.1 found.2).written ++ last) := by
      rw [ht, hlast]
      simp [Reference.written]
    exact (Reference.span_eq hat rfl).symm
  rw [hone] at hbehind
  rw [spansIn?, if_neg (by simp), hbehind, Option.bind_eq_bind, Option.bind_some, hclose]
  dsimp only
  rw [spanAt?_eq (hat.trans (List.append_assoc ..).symm) rfl rfl hq hc, hspan,
    Option.bind_eq_bind, Option.bind_some]
  cases spansIn? text code <;> rfl

theorem firstBracket (text : List Char) :
    (∀ c ∈ text, isBracket c = false) ∨ ∃ qualifier c back, text = qualifier ++ c :: back ∧
      (∀ c ∈ qualifier, isBracket c = false) ∧ isBracket c = true := by
  cases h : text.find? isBracket with
  | none => exact .inl (by simpa using List.find?_eq_none.1 h)
  | some c =>
    obtain ⟨hc, qualifier, back, ht, hq⟩ := List.find?_eq_some_iff_append.1 h
    exact .inr ⟨qualifier, c, back, ht, by simpa using hq, hc⟩

theorem spansIn?_eq (front : List Char) (marks : List Marked)
    (ht : text = front ++ marks.map (·.char)) :
    spansIn? text (codeIn (byteSize front) (marks.flatMap Marked.units)) =
      some ((referencesFrom front.length marks).map (Reference.span text)) := by
  induction marks generalizing front with
  | nil => rfl
  | cons marked marks ih =>
    have hrest := ih (front ++ [marked.char]) (by rw [ht]; simp)
    rw [byteSize_append, List.length_append] at hrest
    rw [List.flatMap_cons, referencesFrom_cons, List.map_append]
    by_cases hm : marked = ⟨'[', true⟩
    · subst hm
      rw [List.map_cons] at ht
      rw [units_of_ascii (by decide), List.singleton_append, codeIn_cons, if_pos rfl, begun?_open]
      rcases firstBracket (marks.map (·.char)) with hno | ⟨qualifier, c, back, hchars, hq, hc⟩
      · have hopen : ∀ m ∈ marks, m.char ≠ '[' := by
          intro m hm hc
          have hbracket := hno m.char (List.mem_map_of_mem hm)
          rw [hc] at hbracket
          cases hbracket
        have hnone : qualifiedIn? (marks.map (·.char)) = none := by
          refine Option.eq_none_iff_forall_ne_some.2 fun found hfound => ?_
          obtain ⟨-, last, hlast, -⟩ := qualifiedIn?_eq_some_iff.1 hfound
          have hbracket := hno ']' (by simp [hlast])
          cases hbracket
        rw [spansIn?_last ht hno, hnone, referencesFrom_of_no_bracket hopen]
        rfl
      · rw [hchars] at ht ⊢
        rw [spansIn?_open ht hq hc]
        refine (congrArg (Option.map _) hrest).trans ?_
        cases qualifiedIn? (qualifier ++ c :: back) <;> rfl
    · have hskip : ∀ m ∈ marked.units, m ≠ ⟨'[', true⟩ := by
        rintro m hu rfl
        rcases Nat.lt_or_ge marked.char.toNat 0x80 with hc | hc
        · rw [units_of_ascii hc, List.mem_singleton] at hu
          exact hm hu.symm
        · exact ne_of_high (high_of_mem_units hc hu) (by decide) rfl
      have hnone : begun? marked marks = none :=
        Option.eq_none_iff_forall_ne_some.2 fun found hb => hm (begun?_eq_some_iff.1 hb).1
      rw [spansIn?_skip hskip, length_units_marked, hnone]
      exact hrest

theorem qualifiedReferences?_eq (text : List Char) :
    qualifiedReferences? text = some ((references text).map (Reference.span text)) := by
  have hspans := spansIn?_eq [] (mark .code text) (map_char_mark .code text).symm
  rw [qualifiedReferences?, scanFrom?_eq, Option.bind_eq_bind, Option.bind_some, codeFrom,
    List.drop_zero, mark_code_units]
  exact hspans

-- ---------------------------------------------------------------------------
-- References of the end of a text
-- ---------------------------------------------------------------------------

/-- A reference of what stands behind `place` characters, as one of the whole text. -/
def Reference.behind (place : Nat) (r : Reference) : Reference :=
  { r with start := place + r.start }

def Span.behind (offset : Nat) (span : Span) : Span :=
  { span with start := offset + span.start, stop := offset + span.stop }

theorem referencesFrom_add (place start : Nat) (marks : List Marked) :
    referencesFrom (place + start) marks =
      (referencesFrom start marks).map (Reference.behind place) := by
  induction marks generalizing start with
  | nil => rfl
  | cons marked marks ih =>
    rw [referencesFrom_cons, referencesFrom_cons, List.map_append, Nat.add_assoc, ih]
    cases begun? marked marks <;> rfl

theorem span_behind (front back : List Char) (r : Reference) :
    (r.behind front.length).span (front ++ back) = (r.span back).behind (byteSize front) := by
  have hstop : (r.behind front.length).stop = front.length + r.stop := by
    simp only [Reference.behind, Reference.stop]
    omega
  rw [Reference.span, hstop, byteOffset_append]
  simp only [Reference.behind, byteOffset_append]
  rfl

end ViewRollout.Sql
