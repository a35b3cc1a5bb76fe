import ViewRollout.Proofs.Sql.CheckedScan
import ViewRollout.Proofs.View.ChainReading

/-!
# Chains with checked accesses

The reading of a chain of CTEs once more, by offsets into the whole text: each
slice has to begin and end at characters, and no subtraction may go below
zero. What is read is the same (`readCtes?_eq`), so no text fails any of the
checks. The text that is still to be read is always an end of the whole one,
which its offsets rest on.
-/

namespace ViewRollout.View

open Sql Text

variable {text front rest behind inner name : List Char} {introducer : Introducer}
variable {offset start : Nat}

-- ---------------------------------------------------------------------------
-- Comment lines
-- ---------------------------------------------------------------------------

theorem byteSize_trimStart_le (text : List Char) : byteSize (trimStart text) ≤ byteSize text := by
  obtain ⟨gap, hgap, -⟩ := exists_trimStart text
  rw [congrArg byteSize hgap, byteSize_append]
  exact Nat.le_add_left ..

/-- The text from its first line on that is neither blank nor begins as a comment. -/
def skipComments? (text : List Char) : Option (List Char) :=
  let begun := trimStart text
  if ['-', '-'].isPrefixOf begun then
    match begun.findIdx? (· == '\n') with
    | none => some []
    | some place =>
      match _h : textFrom? (byteOffset begun place + 1) begun with
      | none => none
      | some rest => skipComments? rest
  else some begun
termination_by byteSize text
decreasing_by
  have hsize := byteSize_of_textFrom? _h
  have hle : byteSize begun ≤ byteSize text := byteSize_trimStart_le text
  omega

theorem dropComments_of_begun (hb : text.head?.any isBlank = false)
    (hd : ¬['-', '-'] <+: text) : dropComments false text = text := by
  cases text with
  | nil => rfl
  | cons c rest =>
    have hc : ¬isBlank c = true := by simpa using hb
    rw [dropComments, if_neg Bool.false_ne_true, if_neg hc, if_neg]
    rintro ⟨rfl, hhead⟩
    obtain ⟨more, rfl⟩ := List.head?_eq_some_iff.1 hhead
    exact hd ⟨more, rfl⟩

theorem dropComments_of_dashes (h : ['-', '-'] <+: text) :
    dropComments false text = dropComments false (afterLine text) := by
  obtain ⟨more, rfl⟩ := h
  exact dropComments_dashes more

theorem skipComments?_eq (text : List Char) :
    skipComments? text = some (dropComments false text) := by
  induction hn : text.length using Nat.strongRecOn generalizing text with
  | _ n ih =>
    rw [skipComments?, ← dropComments_trimStart]
    have hle := length_trimStart_le text
    have hhead := head?_trimStart text
    generalize trimStart text = begun at hle hhead ⊢
    split
    case isFalse hp =>
      rw [dropComments_of_begun hhead fun h => hp (List.isPrefixOf_iff_prefix.2 h)]
    case isTrue hp =>
      rw [dropComments_of_dashes (List.isPrefixOf_iff_prefix.1 hp)]
      by_cases hline : '\n' ∈ begun
      · obtain ⟨line, rest, rfl, hnot⟩ := List.eq_append_cons_of_mem hline
        have hfind : (line ++ '\n' :: rest).findIdx? (· == '\n') = some line.length :=
          findIdx?_first (by simpa using fun c hc => ne_of_mem_of_not_mem hc hnot)
            (beq_self_eq_true _)
        have hat : line ++ '\n' :: rest = (line ++ ['\n']) ++ rest := by simp
        have hsize : byteSize (line ++ ['\n']) =
            byteOffset (line ++ '\n' :: rest) line.length + 1 := by
          rw [byteSize_append, byteOffset, List.take_left]
          rfl
        have hlt : rest.length < n := by
          rw [List.length_append, List.length_cons] at hle
          omega
        rw [hfind, afterLine_append hnot, ← ih rest.length hlt rest rfl]
        dsimp only
        rw [textFrom?_eq_some_iff.2 ⟨_, hat, hsize⟩]
      · have hno : ∀ c ∈ begun, (c == '\n') = false := by
          simpa using fun c hc => ne_of_mem_of_not_mem hc hline
        have hafter : afterLine begun = [] := by
          rcases exists_afterLine begun with h | ⟨line, h, -⟩
          · exact h
          · exact absurd (h ▸ List.mem_append_right line (List.mem_cons_self ..)) hline
        rw [List.findIdx?_eq_none_iff.2 hno, hafter]
        rfl

-- ---------------------------------------------------------------------------
-- The chain
-- ---------------------------------------------------------------------------

/-- The group that `after` begins with, which the text ends with, and what follows it. -/
def readGroup? (text after : List Char) : Option (Except Defect (List Char × List Char)) := do
  let start ← (byteSize text).psub (byteSize after)
  match ← matching? (units text) (start + 1) with
  | .error defect => return .error defect
  | .ok close =>
    let group ← slice? start (close + 1) text
    let behind ← textFrom? (close + 1) text
    return .ok (group, trimStart behind)

/-- One turn of the reader: the CTE that is introduced at the beginning of `rest`, which the text
ends with, and what follows it; no CTE when the chain has ended. -/
def readLink? (text : List Char) (introducer : Introducer) (rest : List Char) :
    Option (Except Defect (Option (Cte × List Char))) := do
  let candidate ← skipComments? rest
  match introducer.read? candidate with
  | none => return .ok none
  | some (name, behind) =>
    let found := candidate.take (candidate.length - behind.length)
    let after ← textFrom? (byteSize found) candidate
    if after.head? ≠ some '(' then return .error (.noCteBody (String.ofList name))
    let link ← readGroup? text after
    return link.map fun (group, behind) => some (⟨String.ofList name, String.ofList group⟩, behind)

theorem byteSize_of_readGroup? {after group : List Char}
    (h : readGroup? text after = some (.ok (group, behind))) :
    byteSize behind < byteSize after := by
  simp only [readGroup?, Option.bind_eq_bind, Option.bind_eq_some_iff] at h
  obtain ⟨start, hstart, result, hmatch, h⟩ := h
  cases result with
  | error defect => cases h
  | ok close =>
    simp only [Option.bind_eq_some_iff] at h
    obtain ⟨own, -, tail, htail, h⟩ := h
    cases h
    rw [matching?_eq, Option.some.injEq, closingParen] at hmatch
    have hclose : start + 1 ≤ close := by
      split at hmatch
      · cases hmatch
        exact Nat.le_add_right ..
      · cases hmatch
    have hstart := Nat.psub_eq_some.1 hstart
    have htail := byteSize_of_textFrom? htail
    have hle := byteSize_trimStart_le tail
    omega

theorem byteSize_dropComments_le (text : List Char) :
    byteSize (dropComments false text) ≤ byteSize text := by
  rcases exists_dropComments text with h | ⟨gap, h, -⟩
  · rw [h]
    exact Nat.zero_le _
  · rw [congrArg byteSize h, byteSize_append]
    exact Nat.le_add_left ..

theorem byteSize_of_readLink? {cte : Cte}
    (h : readLink? text introducer rest = some (.ok (some (cte, behind)))) :
    byteSize behind < byteSize rest := by
  simp only [readLink?, skipComments?_eq, Option.bind_eq_bind, Option.bind_some] at h
  have hle := byteSize_dropComments_le rest
  split at h
  · cases h
  · simp only [Option.bind_eq_some_iff] at h
    obtain ⟨after, hafter, h⟩ := h
    have hafter := byteSize_of_textFrom? hafter
    by_cases hopen : after.head? = some '('
    · rw [if_neg (not_not_intro hopen), Option.bind_eq_some_iff] at h
      obtain ⟨link, hlink, h⟩ := h
      cases link with
      | error defect => cases h
      | ok link =>
        cases h
        have hlt := byteSize_of_readGroup? hlink
        omega
    · rw [if_pos hopen] at h
      cases h

/-- The chain at the beginning of `rest`, which the text ends with, and the body. -/
def readChain? (text : List Char) (introducer : Introducer) (rest : List Char) :
    Option (Except Defect (List Cte × List Char)) :=
  match _h : readLink? text introducer rest with
  | none => none
  | some (.error defect) => some (.error defect)
  | some (.ok none) => some (.ok ([], rest))
  | some (.ok (some (cte, behind))) =>
    (readChain? text .more behind).map (·.map fun (ctes, body) => (cte :: ctes, body))
termination_by byteSize rest
decreasing_by exact byteSize_of_readLink? _h

def readCtes? (text : List Char) : Option (Except Defect (List Cte × List Char)) :=
  readChain? text .first (trimStart text)

-- ---------------------------------------------------------------------------
-- What is read
-- ---------------------------------------------------------------------------

theorem byteSize_of_closing? {place : Nat} (h : closing? 0 (mark .code inner) = some place) :
    byteSize (inner.take (place + 1)) = byteOffset inner place + 1 := by
  have hc := congrArg (Option.map (·.char)) (closing?_eq_some_iff.1 h).2
  rw [← List.getElem?_map, map_char_mark] at hc
  rw [List.take_add_one, hc, byteSize_append]
  rfl

theorem readGroup?_eq (ht : text = front ++ '(' :: inner) :
    readGroup? text ('(' :: inner) = some (match group? inner with
      | none => .error (.unclosedParen (byteSize front))
      | some (group, behind) => .ok ('(' :: group, trimStart behind)) := by
  have hstart : (byteSize text).psub (byteSize ('(' :: inner)) = some (byteSize front) := by
    rw [Nat.psub_eq_some, ht, byteSize_append]
  have hclosing := closingParen_units front inner
  rw [← ht] at hclosing
  rw [readGroup?, hstart, Option.bind_eq_bind, Option.bind_some, matching?_eq, hclosing, group?,
    closingFrom?_eq]
  cases hplace : closing? 0 (mark .code inner) with
  | none => rfl
  | some place =>
    have hsize := byteSize_of_closing? hplace
    have hbody : byteSize front + byteSize ('(' :: inner.take (place + 1)) =
        byteSize front + 1 + byteOffset inner place + 1 := by
      rw [byteSize, hsize, show '('.utf8Size = 1 from rfl]
      omega
    have hcut : text = front ++ ('(' :: inner.take (place + 1) ++ inner.drop (place + 1)) := by
      rw [ht, List.cons_append, List.take_append_drop]
    have hgroup := slice?_eq_some_iff.2 ⟨_, _, hcut, rfl, hbody⟩
    have hbehind := textFrom?_eq_some_iff.2
      ⟨_, (List.append_assoc ..).symm ▸ hcut, (byteSize_append ..).trans hbody⟩
    simp only [Option.map_some, Option.bind_eq_bind, Option.bind_some, hgroup, hbehind]
    rfl

theorem readLink?_of_none (h : introducer.read? (dropComments false rest) = none) :
    readLink? text introducer rest = some (.ok none) := by
  rw [readLink?, skipComments?_eq, Option.bind_eq_bind, Option.bind_some, h]
  rfl

theorem readLink?_of_read? {after : List Char}
    (h : introducer.read? (dropComments false rest) = some (name, after)) :
    readLink? text introducer rest =
      if after.head? ≠ some '(' then some (.error (.noCteBody (String.ofList name)))
      else (readGroup? text after).map (·.map fun (group, behind) =>
        some (⟨String.ofList name, String.ofList group⟩, behind)) := by
  -- What is read is the beginning of the candidate.
  have hafter : textFrom? (byteSize ((dropComments false rest).take
      ((dropComments false rest).length - after.length))) (dropComments false rest) =
        some after := by
    obtain ⟨lead, hlead, -⟩ := exists_read? h
    rw [hlead, List.length_append, Nat.add_sub_cancel, List.take_left]
    exact textFrom?_eq_some_iff.2 ⟨_, rfl, rfl⟩
  rw [readLink?, skipComments?_eq, Option.bind_eq_bind, Option.bind_some, h]
  dsimp only
  rw [hafter, Option.bind_eq_bind, Option.bind_some, Option.map_eq_bind]
  rfl

theorem exists_lead {after : List Char} (ht : text = front ++ rest)
    (h : introducer.read? (dropComments false rest) = some (name, after)) :
    ∃ lead, text = lead ++ after := by
  obtain ⟨introduction, hread, -⟩ := exists_read? h
  rcases exists_dropComments rest with hnil | ⟨gap, hgap, -⟩
  · rw [hnil] at hread
    obtain ⟨-, rfl⟩ := List.append_eq_nil_iff.1 hread.symm
    exact ⟨text, (List.append_nil text).symm⟩
  · rw [hread] at hgap
    exact ⟨front ++ (gap ++ introduction), by rw [ht, hgap]; simp only [List.append_assoc]⟩

theorem readChain?_of_end (h : readLink? text introducer rest = some (.ok none)) :
    readChain? text introducer rest = some (.ok ([], rest)) := by
  rw [readChain?]
  split
  all_goals
    rename_i hlink
    cases h.symm.trans hlink
  rfl

theorem readChain?_of_error {defect : Defect}
    (h : readLink? text introducer rest = some (.error defect)) :
    readChain? text introducer rest = some (.error defect) := by
  rw [readChain?]
  split
  all_goals
    rename_i hlink
    cases h.symm.trans hlink
  rfl

theorem readChain?_of_link {cte : Cte}
    (h : readLink? text introducer rest = some (.ok (some (cte, behind)))) :
    readChain? text introducer rest =
      (readChain? text .more behind).map (·.map fun (ctes, body) => (cte :: ctes, body)) := by
  rw [readChain?]
  split
  all_goals
    rename_i hlink
    cases h.symm.trans hlink
  rfl

theorem readChain?_eq (ht : text = front ++ rest) :
    readChain? text introducer rest = some (readChain (byteSize text) introducer rest) := by
  induction hn : byteSize rest using Nat.strongRecOn generalizing introducer front rest with
  | _ n ih =>
    cases hread : introducer.read? (dropComments false rest) with
    | none => rw [readChain?_of_end (readLink?_of_none hread), readChain_of_none hread]
    | some found =>
      obtain ⟨name, after⟩ := found
      have hlink : readLink? text introducer rest = _ := readLink?_of_read? hread
      by_cases hopen : after.head? = some '('
      · obtain ⟨inner, rfl⟩ := List.head?_eq_some_iff.1 hopen
        obtain ⟨lead, hlead⟩ := exists_lead ht hread
        have hsize : byteSize text = byteSize lead + byteSize ('(' :: inner) := by
          rw [hlead, byteSize_append]
        rw [if_neg (not_not_intro hopen), readGroup?_eq hlead] at hlink
        cases hgroup : group? inner with
        | none =>
          rw [hgroup] at hlink
          rw [readChain?_of_error hlink, readChain_of_unclosed hread hgroup, hsize,
            Nat.add_sub_cancel]
        | some found =>
          obtain ⟨group, behind⟩ := found
          rw [hgroup] at hlink
          obtain ⟨gap, hgap, -⟩ := exists_trimStart behind
          have hbehind : text = (lead ++ '(' :: (group ++ gap)) ++ trimStart behind := by
            rw [hlead, ← append_of_group? hgroup, List.append_assoc, List.cons_append,
              List.append_assoc, ← hgap]
          have hlt := byteSize_of_readLink? hlink
          rw [readChain?_of_link hlink, readChain_of_group hread hgroup,
            ih _ (hn ▸ hlt) hbehind rfl, Option.map_some]
      · rw [if_pos hopen] at hlink
        rw [readChain?_of_error hlink, readChain_of_no_paren hread]
        rintro inner rfl
        exact hopen rfl

theorem readCtes?_eq (text : List Char) :
    (readCtes? text).map (·.map fun (ctes, body) => (ctes, String.ofList body)) =
      some (readCtes (String.ofList text)) := by
  obtain ⟨gap, hgap, -⟩ := exists_trimStart text
  rw [readCtes?, readChain?_eq hgap, readCtes, String.toList_ofList]
  rfl

end ViewRollout.View
