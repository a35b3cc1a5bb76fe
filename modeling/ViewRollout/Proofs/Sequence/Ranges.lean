import ViewRollout.Proofs.Sequence.Selection

/-!
# Ranges between markers

A marker cuts a sequence in two, in front of the first entry that mentions it.
`slice_at_markers`: a range between two markers is what is left when the
sequence is cut at the first one and the rest of it at the other. When there
is no such range, the error names the marker that is missing and tells whether
it was looked for in the whole sequence.
-/

namespace ViewRollout.Sequence

variable {s range : Sequence} {entries front back : List Entry} {needle : String}
variable {start stop place : Nat} {first last : Option String} {error : Error}

/-- The second part begins with the first entry of both that mentions the needle. -/
structure CutAt (needle : String) (front back : List Entry) : Prop where
  front : ∀ entry ∈ front, ¬entry.Mentions needle
  back : ∃ entry ∈ back.head?, entry.Mentions needle

/-- A sequence consists of a range between two markers and of what stands before and behind it.
Nothing stands before it without a first marker, and nothing behind it without a last one. -/
structure Parts (s : Sequence) (first last : Option String) (before range behind : List Entry) :
    Prop where
  whole : s.entries = before ++ (range ++ behind)
  begins : first.elim (before = []) (CutAt · before (range ++ behind))
  ends : last.elim (behind = []) (CutAt · range behind)

-- ---------------------------------------------------------------------------
-- Cutting at one marker
-- ---------------------------------------------------------------------------

theorem exists_cutAt_iff : (∃ front back, entries = front ++ back ∧ CutAt needle front back) ↔
    ∃ entry ∈ entries, entry.Mentions needle := by
  constructor
  · rintro ⟨front, back, rfl, -, entry, hhead, hmentions⟩
    exact ⟨entry, List.mem_append_right _ (List.mem_of_mem_head? hhead), hmentions⟩
  · rintro ⟨entry, hentry, hmentions⟩
    induction entries with
    | nil => cases hentry
    | cons first rest ih =>
      by_cases hfirst : first.Mentions needle
      · exact ⟨[], first :: rest, rfl, by simp, first, rfl, hfirst⟩
      · have hrest : entry ∈ rest := by
          rcases List.mem_cons.1 hentry with rfl | hrest
          · exact absurd hmentions hfirst
          · exact hrest
        obtain ⟨front, back, rfl, hcut⟩ := ih hrest
        exact ⟨first :: front, back, rfl, List.forall_mem_cons.2 ⟨hfirst, hcut.front⟩, hcut.back⟩

theorem firstWith_iff : s.FirstWith needle start place ↔ start ≤ place ∧
    CutAt needle ((s.entries.take place).drop start) (s.entries.drop place) := by
  constructor
  · rintro ⟨hle, ⟨entry, hentry, hmentions⟩, hfirst⟩
    refine ⟨hle, fun other hother => ?_, entry, by simpa using hentry, hmentions⟩
    obtain ⟨i, hi⟩ := List.mem_iff_getElem?.1 hother
    simp only [List.getElem?_drop, List.getElem?_take, Option.ite_none_right_eq_some] at hi
    exact hfirst (start + i) other (Nat.le_add_right ..) hi.1 hi.2
  · rintro ⟨hle, hfront, entry, hentry, hmentions⟩
    refine ⟨hle, ⟨entry, by simpa using hentry, hmentions⟩, fun i other hi hlt hother => ?_⟩
    obtain ⟨k, rfl⟩ := Nat.exists_eq_add_of_le hi
    apply hfront other
    refine List.mem_iff_getElem?.2 ⟨k, ?_⟩
    simp [hlt, hother]

-- ---------------------------------------------------------------------------
-- The range between two markers
-- ---------------------------------------------------------------------------

theorem Cuts.le (h : s.Cuts first last start stop) : start ≤ stop := by
  obtain ⟨hbegins, hends⟩ := h
  cases last with
  | some needle => exact hends.le
  | none =>
    obtain rfl : stop = s.size := hends
    cases first with
    | none =>
      obtain rfl : start = 0 := hbegins
      exact Nat.zero_le _
    | some needle =>
      obtain ⟨entry, hentry, -⟩ := hbegins.mentions
      exact Nat.le_of_lt (List.getElem?_eq_some_iff.1 hentry).1

theorem Cuts.parts (h : s.Cuts first last start stop) : s.Parts first last (s.entries.take start)
    ((s.entries.take stop).drop start) (s.entries.drop stop) := by
  have hbehind : (s.entries.take stop).drop start ++ s.entries.drop stop =
      s.entries.drop start := by
    obtain ⟨length, rfl⟩ := Nat.exists_eq_add_of_le h.le
    rw [List.drop_take, Nat.add_sub_cancel_left, ← List.drop_drop, List.take_append_drop]
  refine ⟨by rw [hbehind, List.take_append_drop], ?_, ?_⟩
  · rw [hbehind]
    cases first with
    | none =>
      obtain rfl : start = 0 := h.begins
      rfl
    | some needle => exact (firstWith_iff.1 h.begins).2
  · cases last with
    | none =>
      obtain rfl : stop = s.size := h.ends
      exact List.drop_length
    | some needle => exact (firstWith_iff.1 h.ends).2

theorem Parts.cuts {before inside behind : List Entry}
    (h : s.Parts first last before inside behind) :
    s.Cuts first last before.length (before.length + inside.length) := by
  obtain ⟨hwhole, hbegins, hends⟩ := h
  constructor
  · cases first with
    | none => exact List.length_eq_zero_iff.2 hbegins
    | some needle =>
      refine firstWith_iff.2 ⟨Nat.zero_le _, ?_⟩
      simpa [hwhole] using hbegins
  · cases last with
    | none =>
      obtain rfl : behind = [] := hends
      simp [size, hwhole]
    | some needle =>
      refine firstWith_iff.2 ⟨Nat.le_add_right .., ?_⟩
      rw [hwhole, ← List.append_assoc, ← List.length_append, List.take_left, List.drop_left,
        List.drop_left]
      exact hends

theorem slice_eq_ok_iff : s.slice first last = .ok range ↔
    ∃ before behind, s.Parts first last before range.entries behind := by
  rw [slice_ok]
  constructor
  · rintro ⟨start, stop, hcuts, rfl⟩
    exact ⟨_, _, hcuts.parts⟩
  · rintro ⟨before, behind, hparts⟩
    refine ⟨_, _, hparts.cuts, ?_⟩
    rw [hparts.whole, ← List.append_assoc, ← List.length_append, List.take_left, List.drop_left]

theorem slice_none_eq_ok_iff : s.slice none last = .ok range ↔ ∃ behind,
    s.entries = range.entries ++ behind ∧
      last.elim (behind = []) (CutAt · range.entries behind) := by
  rw [slice_eq_ok_iff]
  constructor
  · rintro ⟨before, behind, hwhole, rfl, hends⟩
    exact ⟨behind, hwhole, hends⟩
  · rintro ⟨behind, hwhole, hends⟩
    exact ⟨[], behind, hwhole, rfl, hends⟩

theorem slice_eq_ok_none_iff : s.slice first none = .ok range ↔ ∃ before,
    s.entries = before ++ range.entries ∧
      first.elim (before = []) (CutAt · before range.entries) := by
  rw [slice_eq_ok_iff]
  constructor
  · rintro ⟨before, behind, hwhole, hbegins, rfl⟩
    rw [List.append_nil] at hwhole hbegins
    exact ⟨before, hwhole, hbegins⟩
  · rintro ⟨before, hwhole, hbegins⟩
    exact ⟨before, [], by rwa [List.append_nil], by rwa [List.append_nil], rfl⟩

theorem slice_in_two_iff : s.slice first last = .ok range ↔
    ∃ rest, s.slice first none = .ok rest ∧ rest.slice none last = .ok range := by
  rw [slice_eq_ok_iff]
  constructor
  · rintro ⟨before, behind, hwhole, hbegins, hends⟩
    refine ⟨⟨range.entries ++ behind⟩, ?_, ?_⟩
    · exact slice_eq_ok_none_iff.2 ⟨before, hwhole, hbegins⟩
    · exact slice_none_eq_ok_iff.2 ⟨behind, rfl, hends⟩
  · rintro ⟨rest, hfirst, hlast⟩
    obtain ⟨before, hwhole, hbegins⟩ := slice_eq_ok_none_iff.1 hfirst
    obtain ⟨behind, hrest, hends⟩ := slice_none_eq_ok_iff.1 hlast
    rw [hrest] at hwhole hbegins
    exact ⟨before, behind, hwhole, hbegins, hends⟩

theorem two_slices_iff : (∃ head tail, s.slice none (some needle) = .ok head ∧
    s.slice (some needle) none = .ok tail ∧ head.entries ++ tail.entries = s.entries) ↔
      ∃ entry ∈ s.entries, entry.Mentions needle := by
  simp only [slice_none_eq_ok_iff, slice_eq_ok_none_iff, ← exists_cutAt_iff]
  constructor
  · rintro ⟨head, tail, ⟨behind, hwhole, hcut⟩, -⟩
    exact ⟨head.entries, behind, hwhole, hcut⟩
  · rintro ⟨front, back, hwhole, hcut⟩
    exact ⟨⟨front⟩, ⟨back⟩, ⟨back, hwhole, hcut⟩, ⟨front, hwhole, hcut⟩, hwhole.symm⟩

-- ---------------------------------------------------------------------------
-- Markers that are missing
-- ---------------------------------------------------------------------------

theorem find?_eq_none_iff : s.find? needle start = none ↔
    ∀ entry ∈ s.entries.drop start, ¬entry.Mentions needle := by
  simp [find?, List.findIdx?_eq_none_iff, ← Entry.contains_iff]

theorem startOf_error : s.startOf first = .error error ↔
    ∃ needle ∈ first, (∀ entry ∈ s.entries, ¬entry.Mentions needle) ∧ error = .notFound needle := by
  cases first with
  | none => simp [startOf]
  | some needle =>
    have hnone := @find?_eq_none_iff s needle 0
    rw [List.drop_zero] at hnone
    rw [startOf]
    cases hfind : s.find? needle 0 with
    | none => simpa [eq_comm] using fun _ => hnone.1 hfind
    | some place => simp [← hnone, hfind]

theorem stopOf_error : s.stopOf start last = .error error ↔
    ∃ needle ∈ last, (∀ entry ∈ s.entries.drop start, ¬entry.Mentions needle) ∧
      error = if start = 0 then .notFound needle else .notFoundInRange needle := by
  cases last with
  | none => simp [stopOf]
  | some needle =>
    rw [stopOf]
    cases hfind : s.find? needle start with
    | none => simpa [eq_comm] using fun _ => find?_eq_none_iff.1 hfind
    | some place => simp [← find?_eq_none_iff, hfind]

theorem slice_eq_error_iff : s.slice first last = .error error ↔
    s.startOf first = .error error ∨
      ∃ start, s.startOf first = .ok start ∧ s.stopOf start last = .error error := by
  rw [slice]
  cases s.startOf first with
  | error => simp
  | ok start =>
    cases hstop : s.stopOf start last <;> simp [hstop]

/-- Every marker that an entry mentions cuts the sequence into two slices. There is a slice between
two markers exactly when there is one from the first marker on and in it one up to the last marker,
and it is the same one: the range from the first entry of the sequence that mentions the first
marker up to the first entry from there on that mentions the last one. Otherwise no entry mentions
the first marker, or none from the start of the range on mentions the last one, and the error says
which. -/
theorem slice_at_markers (s : Sequence) (first last : Option String) :
    (∀ needle, (∃ head tail, s.slice none (some needle) = .ok head ∧
        s.slice (some needle) none = .ok tail ∧ head.entries ++ tail.entries = s.entries) ↔
      ∃ entry ∈ s.entries, entry.Mentions needle) ∧
    (∀ range, s.slice first last = .ok range ↔
      ∃ rest, s.slice first none = .ok rest ∧ rest.slice none last = .ok range) ∧
    (∀ range, s.slice first last = .ok range ↔
      ∃ before behind, s.Parts first last before range.entries behind) ∧
    ∀ error, s.slice first last = .error error ↔
      (∃ needle ∈ first, (∀ entry ∈ s.entries, ¬entry.Mentions needle) ∧
        error = .notFound needle) ∨
      ∃ start, first.elim (start = 0) (s.FirstWith · 0 start) ∧
        ∃ needle ∈ last, (∀ entry ∈ s.entries.drop start, ¬entry.Mentions needle) ∧
          error = if start = 0 then .notFound needle else .notFoundInRange needle := by
  refine ⟨fun needle => two_slices_iff, fun range => slice_in_two_iff,
    fun range => slice_eq_ok_iff, fun error => ?_⟩
  simp only [slice_eq_error_iff, startOf_error, startOf_ok, stopOf_error]

end ViewRollout.Sequence
