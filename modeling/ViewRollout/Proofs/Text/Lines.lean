import ViewRollout.Proofs.Text.Trimming
import ViewRollout.Text.Lines

/-!
# Lines and pieces

The pieces of a text are what stands between its newlines. Its lines are the
same once they are trimmed, but that an empty piece behind the last newline is
no line (`trimmedPieces_eq`): a carriage return before a newline is blank, so
trimming takes it off. Lines without newlines can be joined by newlines and
taken apart again (`splitOn_joinLines`).
-/

namespace ViewRollout.Text

variable {text line begun : List Char} {lines : List (List Char)}

def trimmedPieces (text : List Char) : List (List Char) :=
  (text.splitOn '\n').map trim

-- ---------------------------------------------------------------------------
-- Joining lines and taking them apart
-- ---------------------------------------------------------------------------

theorem joinLines_eq_intercalate (lines : List (List Char)) :
    joinLines lines = ['\n'].intercalate lines := by
  fun_induction joinLines lines with
  | case1 => rfl
  | case2 line => simp
  | case3 line rest hne ih =>
    cases rest with
    | nil => exact absurd rfl hne
    | cons next rest => rw [ih, List.intercalate_cons_cons, List.append_assoc]; rfl

theorem splitOn_joinLines (hne : lines ≠ []) (h : ∀ line ∈ lines, '\n' ∉ line) :
    (joinLines lines).splitOn '\n' = lines := by
  rw [joinLines_eq_intercalate]
  exact List.splitOn_intercalate '\n' h hne

theorem joinLines_splitOn (text : List Char) : joinLines (text.splitOn '\n') = text := by
  rw [joinLines_eq_intercalate]
  exact List.intercalate_splitOn '\n'

-- ---------------------------------------------------------------------------
-- The lines of a text
-- ---------------------------------------------------------------------------

theorem trim_dropReturn (line : List Char) : trim (dropReturn line) = trim line := by
  rw [dropReturn]
  split
  · rename_i hlast
    obtain ⟨front, rfl⟩ := List.getLast?_eq_some_iff.1 hlast
    have hblank : ∀ c ∈ ['\r'], isBlank c = true := List.forall_mem_singleton.2 rfl
    rw [List.dropLast_concat, trim_append_of_blank hblank]
  · rfl

theorem mem_of_mem_trim {c : Char} (h : c ∈ trim text) : c ∈ text := by
  obtain ⟨front, back, ht, -⟩ := blank_trim_blank text
  rw [ht]
  exact List.mem_append_right _ (List.mem_append_left _ h)

theorem no_newline_linesFrom (hb : '\n' ∉ begun) (text : List Char) :
    ∀ line ∈ linesFrom begun text, '\n' ∉ line := by
  fun_induction linesFrom begun text with
  | case1 => simp
  | case2 begun => simpa using hb
  | case3 begun rest ih =>
    have hdrop : '\n' ∉ dropReturn begun.reverse := by
      rw [dropReturn]
      split
      · exact fun h => hb (List.mem_reverse.1 ((List.dropLast_sublist _).subset h))
      · exact mt List.mem_reverse.1 hb
    exact List.forall_mem_cons.2 ⟨hdrop, ih List.not_mem_nil⟩
  | case4 begun c rest hc ih =>
    exact ih fun h => (List.mem_cons.1 h).elim (fun h => hc h.symm) hb

theorem trimmedPieces_begun (hb : '\n' ∉ begun) (text : List Char) :
    trimmedPieces (begun.reverse ++ text) = (linesFrom begun text).map trim ∨
      trimmedPieces (begun.reverse ++ text) = (linesFrom begun text).map trim ++ [[]] := by
  fun_induction linesFrom begun text with
  | case1 => exact .inr rfl
  | case2 begun =>
    rw [List.append_nil, trimmedPieces, List.splitOn_eq_singleton (mt List.mem_reverse.1 hb)]
    exact .inl rfl
  | case3 begun rest ih =>
    have hpieces : trimmedPieces (begun.reverse ++ '\n' :: rest) =
        trim begun.reverse :: trimmedPieces rest := by
      rw [trimmedPieces, List.splitOn_append_cons_self,
        List.splitOn_eq_singleton (mt List.mem_reverse.1 hb)]
      rfl
    rw [hpieces, List.map_cons, trim_dropReturn, List.cons_append, List.cons_inj_right,
      List.cons_inj_right]
    exact ih List.not_mem_nil
  | case4 begun c rest hc ih =>
    have hbegun : '\n' ∉ c :: begun := fun h => (List.mem_cons.1 h).elim (fun h => hc h.symm) hb
    simpa using ih hbegun

/-- The pieces are the lines, but for an empty one that may follow the last newline. -/
theorem trimmedPieces_eq (text : List Char) :
    trimmedPieces text = (Text.lines text).map trim ∨
      trimmedPieces text = (Text.lines text).map trim ++ [[]] :=
  trimmedPieces_begun List.not_mem_nil text

end ViewRollout.Text
