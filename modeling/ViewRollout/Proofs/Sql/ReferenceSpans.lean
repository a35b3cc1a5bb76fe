import ViewRollout.Proofs.Sql.CheckedReferences

/-!
# The spans of references

`references_exact`: the references of a text, told by the offsets at which
they begin and end, are the spans that stand in it. They come in the order in
which they begin, and none begins before the last one has ended. A search that
stops at the first bracket of the code behind which there is no other bracket
misses none of them.
-/

namespace ViewRollout.Sql

open Text

variable {text : List Char} {marks : List Marked} {place : Nat} {r : Reference} {span : Span}

/-- The span stands in the text as `[qualifier].name`: its `[` is code, and no identifier goes on
behind its name. -/
structure Span.Stands (text : List Char) (span : Span) : Prop where
  qualifies : Qualifies span.qualifier span.name
  written : slice? span.start span.stop text =
    some ('[' :: (span.qualifier ++ ']' :: '.' :: span.name))
  whole : (units text)[span.stop]?.any isIdent = false
  code : (codeFlags (units text))[span.start]? = some true

-- ---------------------------------------------------------------------------
-- One after the other
-- ---------------------------------------------------------------------------

theorem le_of_mem_referencesFrom (h : r ∈ referencesFrom place marks) : place ≤ r.start := by
  obtain ⟨front, _, _, -, hstart, -⟩ := mem_referencesFrom_iff.1 h
  rw [hstart]
  exact Nat.le_add_right ..

/-- A reference ends before the next one begins, since there is no second `[` in it. -/
theorem pairwise_referencesFrom (place : Nat) (marks : List Marked) :
    (referencesFrom place marks).Pairwise (·.stop ≤ ·.start) := by
  induction marks generalizing place with
  | nil => exact .nil
  | cons marked marks ih =>
    rw [referencesFrom_cons]
    cases hb : begun? marked marks with
    | none => exact ih (place + 1)
    | some found =>
      obtain ⟨qualifier, name⟩ := found
      refine List.pairwise_cons.2 ⟨fun r hr => ?_, ih (place + 1)⟩
      obtain ⟨front, rear, rfl, hfront, hno, -⟩ := span_of_begun? hb
      rw [referencesFrom_append_of_no_bracket hno] at hr
      have hle := le_of_mem_referencesFrom hr
      have hlength := congrArg List.length hfront
      simp only [List.length_map, List.length_append, List.length_cons] at hlength
      simp only [Reference.stop]
      omega

theorem byteOffset_le {place place' : Nat} (h : place ≤ place') :
    byteOffset text place ≤ byteOffset text place' := by
  obtain ⟨more, rfl⟩ := Nat.exists_eq_add_of_le h
  rw [byteOffset, byteOffset, List.take_add, byteSize_append]
  exact Nat.le_add_right ..

theorem IsReference.start_lt_stop (h : IsReference text r) :
    (r.span text).start < (r.span text).stop := by
  obtain ⟨front, back, ht, hl, -⟩ := h.written
  rw [Reference.span_eq ht hl]
  dsimp only
  omega

theorem pairwise_spans (text : List Char) :
    ((references text).map (Reference.span text)).Pairwise fun first next =>
      first.start < next.start ∧ first.stop ≤ next.start := by
  rw [List.pairwise_map]
  refine (pairwise_referencesFrom 0 _).imp_of_mem fun {first next} hfirst _ hle => ?_
  have hstop : (first.span text).stop ≤ (next.span text).start := byteOffset_le hle
  have hstart := (mem_references_iff.1 hfirst).start_lt_stop
  exact ⟨Nat.lt_of_lt_of_le hstart hstop, hstop⟩

-- ---------------------------------------------------------------------------
-- References and their spans
-- ---------------------------------------------------------------------------

theorem IsReference.stands (h : IsReference text r) : (r.span text).Stands text := by
  obtain ⟨front, back, ht, hl, hback⟩ := h.written
  have hspan := Reference.span_of_written ht hl
  refine ⟨h.qualifies, ?_, ?_, ?_⟩
  · refine slice?_eq_some_iff.2 ⟨front, back, ht, by rw [hspan], ?_⟩
    rw [hspan, byteSize_append]
    rfl
  · have hat : text = front ++ r.written ++ back := by rw [ht, List.append_assoc]
    rw [getElem?_units hat (by rw [hspan]), any_head?_units bytewise_isIdent, hback]
  · exact (codeFlags_byteOffset text r.start).trans (codeFlags_eq_true_iff.2 h.code)

theorem Span.Stands.exists_reference (h : span.Stands text) :
    ∃ r, IsReference text r ∧ r.span text = span := by
  obtain ⟨front, back, ht, hstart, hstop⟩ := slice?_eq_some_iff.1 h.written
  let r : Reference := ⟨front.length, span.qualifier, span.name⟩
  have hwritten : text = front ++ (r.written ++ back) := ht
  have hat : text = front ++ r.written ++ back := by rw [hwritten, List.append_assoc]
  have hsize : byteSize (front ++ r.written) = span.stop := by
    rw [byteSize_append, hstart]
    exact hstop
  have hcode := (codeFlags_byteOffset text front.length).symm
  rw [byteOffset_eq ht rfl, hstart, h.code] at hcode
  refine ⟨r, ⟨h.qualifies, ⟨front, back, hwritten, rfl, ?_⟩, codeFlags_eq_true_iff.1 hcode⟩, ?_⟩
  · rw [← any_head?_units bytewise_isIdent, ← getElem?_units hat hsize, h.whole]
  · rw [Reference.span_of_written hwritten rfl, hstart, hsize]

theorem mem_spans_iff :
    span ∈ (references text).map (Reference.span text) ↔ span.Stands text := by
  rw [List.mem_map]
  constructor
  · rintro ⟨r, hr, rfl⟩
    exact (mem_references_iff.1 hr).stands
  · intro h
    obtain ⟨r, hr, hspan⟩ := h.exists_reference
    exact ⟨r, mem_references_iff.2 hr, hspan⟩

/-- The references of a text are all that stand in it and nothing else: each begins at a `[` of the
code, with a qualifier free of brackets up to `].`, and ends where its name can go on no further.
They come in order, each ended before the next one begins, and a search that breaks off behind the
last bracket finds every one of them. -/
theorem references_exact (text : List Char) :
    (∀ span, span ∈ (references text).map (Reference.span text) ↔ span.Stands text) ∧
    ((references text).map (Reference.span text)).Pairwise (fun first next =>
      first.start < next.start ∧ first.stop ≤ next.start) ∧
    qualifiedReferences? text = some ((references text).map (Reference.span text)) :=
  ⟨fun _ => mem_spans_iff, pairwise_spans text, qualifiedReferences?_eq text⟩

-- Of nested brackets the inner one begins a reference, also when a quote opens in its qualifier.
example : (references "[é [a'].b' [c].d".toList).map (Reference.span "[é [a'].b' [c].d".toList) =
    [⟨4, 10, ['a', '\''], ['b']⟩, ⟨12, 17, ['c'], ['d']⟩] := by decide

end ViewRollout.Sql
