import Mathlib.Data.Nat.PSub
import ViewRollout.Proofs.Sequence.Selection

/-!
# The first patches of a sequence

`limit_counts_patches`: a limit keeps the entries up to the last patch that it
admits, and one limit on another is the smaller of the two. Whether the
entries are counted before the patches are makes no difference.
-/

namespace ViewRollout.Sequence

variable {s : Sequence} {entries : List Entry} {n : Nat}

/-- How many entries there are up to the last of `remaining` patches, or to the end when the
patches are fewer, with `passed` entries before these. The counter of the patches does not go
below zero. -/
def endFrom? (remaining passed : Nat) : List Entry → Option Nat
  | [] => some passed
  | entry :: rest =>
    if entry.filename.isSome then do
      let remaining ← remaining.ppred
      if remaining = 0 then some (passed + 1) else endFrom? remaining (passed + 1) rest
    else endFrom? remaining (passed + 1) rest

/-- The entries up to the last of that many patches, counted one by one however many entries there
are. -/
def counted? (s : Sequence) (n : Nat) : Option Sequence :=
  if n = 0 then some .empty
  else (endFrom? n 0 s.entries).map fun stop => ⟨s.entries.take stop⟩

-- ---------------------------------------------------------------------------
-- Taking patches
-- ---------------------------------------------------------------------------

theorem countPatches_cons (entry : Entry) (entries : List Entry) :
    countPatches (entry :: entries) =
      countPatches entries + if entry.filename.isSome then 1 else 0 :=
  List.countP_cons

theorem length_filenames (s : Sequence) : s.filenames.length = countPatches s.entries :=
  List.length_filterMap_eq_countP ..

@[simp] theorem takePatches_nil (n : Nat) : takePatches n [] = [] := by
  cases n <;> rfl

theorem takePatches_of_lt (h : countPatches entries < n) : takePatches n entries = entries := by
  fun_induction takePatches n entries with
  | case1 => cases h
  | case2 => rfl
  | case3 n entry rest ih =>
    rw [countPatches_cons] at h
    rw [ih (by split at h <;> simp_all)]

theorem takePatches_takePatches (m n : Nat) (entries : List Entry) :
    takePatches n (takePatches m entries) = takePatches (min m n) entries := by
  fun_induction takePatches m entries generalizing n with
  | case1 => simp [takePatches]
  | case2 => simp
  | case3 m entry rest ih =>
    cases n with
    | zero => rfl
    | succ n =>
      rw [takePatches, ih, Nat.succ_min_succ, takePatches]
      split <;> simp

theorem exists_last_of_lt (h : n < countPatches entries) :
    ∃ front entry, takePatches (n + 1) entries = front ++ [entry] ∧ countPatches front = n ∧
      entry.filename = (entries.filterMap (·.filename))[n]? := by
  induction entries generalizing n with
  | nil => cases h
  | cons entry rest ih =>
    rw [countPatches_cons] at h
    rw [takePatches, List.filterMap_cons]
    cases hname : entry.filename with
    | none =>
      obtain ⟨front, last, htake, hcount, hlast⟩ := ih (n := n) (by simpa [hname] using h)
      refine ⟨entry :: front, last, by simp [htake], ?_, hlast⟩
      simp [countPatches_cons, hname, hcount]
    | some name =>
      cases n with
      | zero => exact ⟨[], entry, by simp [takePatches], rfl, hname⟩
      | succ n =>
        obtain ⟨front, last, htake, hcount, hlast⟩ := ih (n := n) (by simpa [hname] using h)
        refine ⟨entry :: front, last, by simp [htake], ?_, hlast⟩
        simp [countPatches_cons, hname, hcount]

/-- Where the entries are fewer than the limit the patches are so too. -/
theorem limit_eq (s : Sequence) (n : Nat) : s.limit n = ⟨takePatches n s.entries⟩ := by
  rw [limit]
  split
  · rename_i hsize
    have hcount : countPatches s.entries ≤ s.size := List.countP_le_length
    rw [takePatches_of_lt (Nat.lt_of_le_of_lt hcount hsize)]
  · rfl

-- ---------------------------------------------------------------------------
-- Counting
-- ---------------------------------------------------------------------------

theorem endFrom?_eq (n passed : Nat) (entries : List Entry) :
    endFrom? (n + 1) passed entries = some (passed + (takePatches (n + 1) entries).length) := by
  induction entries generalizing n passed with
  | nil => rfl
  | cons entry rest ih =>
    rw [endFrom?, takePatches]
    cases entry.filename.isSome with
    | false => simp [ih, Nat.add_assoc, Nat.add_comm 1]
    | true =>
      cases n with
      | zero => simp [takePatches]
      | succ n => simp [ih, Nat.add_assoc, Nat.add_comm 1]

theorem counted?_eq (s : Sequence) (n : Nat) : s.counted? n = some (s.limit n) := by
  rw [counted?, limit_eq]
  cases n with
  | zero => simp [empty, takePatches]
  | succ n =>
    rw [if_neg (Nat.succ_ne_zero n), endFrom?_eq, Option.map_some, Nat.zero_add,
      ← List.prefix_iff_eq_take.1 (takePatches_isPrefix (n + 1) s.entries)]

/-- A limit takes the first patches, with all entries up to the last one of them; it changes nothing
when there are fewer patches. On a sequence with a limit it gives the smaller limit. It is what
counting the patches gives, the counter of which is never below zero. -/
theorem limit_counts_patches (s : Sequence) (n : Nat) :
    (s.limit n).entries <+: s.entries ∧ (s.limit n).filenames = s.filenames.take n ∧
      (s.filenames.length < n → s.limit n = s) ∧
      (0 < n → n ≤ s.filenames.length →
        ∃ front entry, (s.limit n).entries = front ++ [entry] ∧ countPatches front = n - 1 ∧
          entry.filename = s.filenames[n - 1]?) ∧
      (∀ m, (s.limit m).limit n = s.limit (min m n)) ∧
      s.counted? n = some (s.limit n) := by
  refine ⟨?_, filenames_limit s n, fun hlt => ?_, fun hpos hle => ?_, fun m => ?_, counted?_eq s n⟩
  · rw [limit_eq]
    exact takePatches_isPrefix n s.entries
  · rw [length_filenames] at hlt
    rw [limit_eq, takePatches_of_lt hlt]
  · obtain ⟨n, rfl⟩ := Nat.exists_eq_succ_of_ne_zero (Nat.ne_of_gt hpos)
    rw [length_filenames] at hle
    rw [limit_eq]
    exact exists_last_of_lt hle
  · simp only [limit_eq, takePatches_takePatches]

def commentedPatches : Sequence :=
  ⟨[.patch "a.sql", ⟨some "# one", none⟩, ⟨some "# two", some "b.sql"⟩, ⟨some "# end", none⟩]⟩

/-- The second patch is the last entry with a limit of two, and with one of three nothing is cut
off. -/
theorem limit_commentedPatches :
    (∃ front entry, (commentedPatches.limit 2).entries = front ++ [entry] ∧
        countPatches front = 1 ∧ entry.filename = some "b.sql") ∧
      commentedPatches.limit 3 = commentedPatches := by
  obtain ⟨-, -, -, hlast, -⟩ := limit_counts_patches commentedPatches 2
  obtain ⟨-, -, hall, -⟩ := limit_counts_patches commentedPatches 3
  exact ⟨hlast (by decide) (by decide), hall (by decide)⟩

end ViewRollout.Sequence
