import ViewRollout.Files.Tree

/-!
# Writing into a tree

A written file is found again under the path it was written to, and nothing
else changes: no place gets another content, and every other path leads where
it led before, or nowhere as before. `put` is the tree after a place was
filled; the place was no directory, so all walks go on as they did.
-/

namespace ViewRollout.Files.Tree

variable {tree tree' : Tree} {place start target : Place} {path name : String}
variable {names front : List String} {content : Bytes}

def put (tree : Tree) (place : Place) (content : Bytes) : Tree :=
  ⟨tree.entries.put place (.file content)⟩

theorem write_ok :
    tree.write path content = .ok tree' ↔
      ∃ place, tree.target path = .ok place ∧ tree' = tree.put place content := by
  unfold write
  cases tree.target path <;> simp [put, eq_comm]

/-- The tree with the content written to the path, or as it is when that is not possible. -/
def rewritten (tree : Tree) (path : String) (content : Bytes) : Tree :=
  match tree.write path content with
  | .ok tree => tree
  | .error _ => tree

theorem rewritten_of_write (h : tree.write path content = .ok tree') :
    tree.rewritten path content = tree' := by
  rw [rewritten, h]

theorem write_of_rewritten (h : tree.rewritten path content ≠ tree) :
    tree.write path content = .ok (tree.rewritten path content) := by
  unfold rewritten at h ⊢
  cases hw : tree.write path content with
  | ok tree' => rfl
  | error fault => exact absurd (by rw [hw]) h

/-- A place that a file can stand at. -/
def Fillable (tree : Tree) (place : Place) : Prop :=
  tree.entry? place ≠ some .directory

theorem not_isTop (h : tree.Fillable place) : isTop place = false := by
  rw [Fillable, entry?] at h
  split at h
  · exact absurd rfl h
  · simp_all

theorem found_put (h : tree.Fillable place) (other : Place) :
    entry? (tree.put place content) other =
      if other = place then some (.file content) else tree.entry? other := by
  unfold entry? put
  rw [Table.get?_put]
  split
  · rename_i ht
    have hne : other ≠ place := by
      rintro rfl
      rw [not_isTop h] at ht
      cases ht
    rw [if_neg hne]
  · rfl

theorem found_put_self (h : tree.Fillable place) :
    entry? (tree.put place content) place = some (.file content) := by
  rw [found_put h, if_pos rfl]

theorem found_put_of_ne (h : tree.Fillable place) (hne : start ≠ place) :
    entry? (tree.put place content) start = tree.entry? start := by
  rw [found_put h, if_neg hne]

theorem found_put_directory (h : tree.Fillable place) :
    entry? (tree.put place content) start = some .directory ↔
      tree.entry? start = some .directory := by
  rw [found_put h]
  split
  · subst start
    exact ⟨nofun, fun hdir => absurd hdir h⟩
  · rfl

-- ---------------------------------------------------------------------------
-- Walking
-- ---------------------------------------------------------------------------

theorem walk_cons_ok :
    tree.walk start (name :: names) = .ok target ↔
      tree.entry? start = some .directory ∧
        tree.walk (if name = "" ∨ name = "." then start
          else if name = ".." then above start else start ++ [name]) names = .ok target := by
  rw [walk]
  cases tree.entry? start with
  | none => simp
  | some entry =>
    cases entry with
    | file => simp
    | directory =>
      simp only [Bool.or_eq_true, decide_eq_true_eq, true_and]
      split
      · rfl
      · split <;> rfl

theorem walk_nil_ok : tree.walk start [] = .ok target ↔
    (tree.entry? start).isSome ∧ start = target := by
  rw [walk]
  split <;> simp_all

theorem walk_append (h : tree.walk start front = .ok target) (names : List String) :
    tree.walk start (front ++ names) = tree.walk target names := by
  induction front generalizing start with
  | nil =>
    obtain ⟨-, rfl⟩ := walk_nil_ok.1 h
    rfl
  | cons name front ih =>
    obtain ⟨hdir, hrest⟩ := walk_cons_ok.1 h
    rw [← ih hrest, List.cons_append, walk, hdir]
    dsimp only
    simp only [Bool.or_eq_true, decide_eq_true_eq]
    split
    · rfl
    · split <;> rfl

/-- The names that lead down to something. -/
def IsProper (name : String) : Prop :=
  name ≠ "" ∧ name ≠ "." ∧ name ≠ ".."

instance (name : String) : Decidable (IsProper name) :=
  inferInstanceAs (Decidable (_ ∧ _ ∧ _))

theorem walk_proper (hn : IsProper name) (hdir : tree.entry? start = some .directory) :
    tree.walk start [name] = tree.walk (start ++ [name]) [] := by
  obtain ⟨h₁, h₂, h₃⟩ := hn
  simp [walk, hdir, h₁, h₂, h₃]

theorem getLast?_walk (hn : IsProper name) (h : tree.walk start (front ++ [name]) = .ok target) :
    target.getLast? = some name := by
  induction front generalizing start with
  | nil =>
    obtain ⟨hdir, -⟩ := walk_cons_ok.1 h
    rw [List.nil_append, walk_proper hn hdir] at h
    obtain ⟨-, rfl⟩ := walk_nil_ok.1 h
    simp
  | cons first front ih => exact ih (walk_cons_ok.1 h).2

theorem walk_put_of_ok (hp : tree.Fillable place) (h : tree.walk start names = .ok target) :
    (tree.put place content).walk start names = .ok target := by
  induction names generalizing start with
  | nil =>
    obtain ⟨hs, rfl⟩ := walk_nil_ok.1 h
    refine walk_nil_ok.2 ⟨?_, rfl⟩
    rw [found_put hp]
    split
    · rfl
    · exact hs
  | cons name names ih =>
    obtain ⟨hdir, hrest⟩ := walk_cons_ok.1 h
    exact walk_cons_ok.2 ⟨(found_put_directory hp).2 hdir, ih hrest⟩

theorem walk_of_put_ok (hp : tree.Fillable place)
    (h : (tree.put place content).walk start names = .ok target) (hne : target ≠ place) :
    tree.walk start names = .ok target := by
  induction names generalizing start with
  | nil =>
    obtain ⟨hs, rfl⟩ := walk_nil_ok.1 h
    rw [found_put_of_ne hp hne] at hs
    exact walk_nil_ok.2 ⟨hs, rfl⟩
  | cons name names ih =>
    obtain ⟨hdir, hrest⟩ := walk_cons_ok.1 h
    exact walk_cons_ok.2 ⟨(found_put_directory hp).1 hdir, ih hrest⟩

-- ---------------------------------------------------------------------------
-- Paths
-- ---------------------------------------------------------------------------

/-- A path that can lead somewhere. -/
def IsPath (path : String) : Prop :=
  path.toList.contains '\x00' = false ∧ path ≠ ""

instance (path : String) : Decidable (IsPath path) :=
  inferInstanceAs (Decidable (_ ∧ _))

theorem namesFrom_append_slash (begun front rest : List Char) :
    ∃ names, Path.namesFrom begun (front ++ '/' :: rest) = names ++ Path.namesFrom [] rest := by
  induction front generalizing begun with
  | nil => exact ⟨[_], rfl⟩
  | cons c front ih =>
    rw [List.cons_append, Path.namesFrom]
    split
    · obtain ⟨names, h⟩ := ih []
      exact ⟨_ :: names, by rw [h, List.cons_append]⟩
    · exact ih _

/-- The last name of a path in a directory is the name that the directory knows it by. -/
theorem names_join (directory : String) (h : Path.names name = [name]) :
    ∃ front, Path.names (Path.join directory name) = front ++ [name] := by
  unfold Path.join
  split
  · exact ⟨[], h⟩
  · split
    · rename_i hlast
      obtain ⟨front, hfront⟩ := List.getLast?_eq_some_iff.1 hlast
      obtain ⟨names, hnames⟩ := namesFrom_append_slash [] front name.toList
      refine ⟨names, ?_⟩
      rw [Path.names, String.toList_append, hfront, List.append_assoc]
      exact hnames.trans (by rw [← h, Path.names])
    · obtain ⟨names, hnames⟩ := namesFrom_append_slash [] directory.toList name.toList
      refine ⟨names, ?_⟩
      rw [Path.names, String.toList_append, String.toList_append, List.append_assoc]
      exact hnames.trans (by rw [← h, Path.names])

theorem locate_ok : tree.locate path = .ok target ↔
    IsPath path ∧ tree.walk (origin path) (Path.names path) = .ok target := by
  unfold locate IsPath
  split
  · simp_all
  · split <;> simp_all

theorem locate_put_of_ok (hp : tree.Fillable place) (h : tree.locate path = .ok target) :
    (tree.put place content).locate path = .ok target := by
  obtain ⟨hpath, hwalk⟩ := locate_ok.1 h
  exact locate_ok.2 ⟨hpath, walk_put_of_ok hp hwalk⟩

theorem locate_of_put_ok (hp : tree.Fillable place)
    (h : (tree.put place content).locate path = .ok target) (hne : target ≠ place) :
    tree.locate path = .ok target := by
  obtain ⟨hpath, hwalk⟩ := locate_ok.1 h
  exact locate_ok.2 ⟨hpath, walk_of_put_ok hp hwalk hne⟩

theorem find?_eq_some_iff {entry : Entry} : tree.find? path = some entry ↔
    ∃ place, tree.locate path = .ok place ∧ tree.entry? place = some entry := by
  unfold find?
  cases tree.locate path <;> simp

theorem find?_of_locate (h : tree.locate path = .ok place) :
    tree.find? path = tree.entry? place := by
  rw [find?, h]

theorem find?_put_of_locate (hp : tree.Fillable place)
    (h : (tree.put place content).locate path = .ok place) :
    (tree.put place content).find? path = some (.file content) := by
  rw [find?_of_locate h, found_put_self hp]

/-- A path that does not lead to the new file leads to what it led to before. -/
theorem find?_put_of_ne (hp : tree.Fillable place)
    (h : (tree.put place content).locate path ≠ .ok place) :
    (tree.put place content).find? path = tree.find? path := by
  refine Option.ext fun entry => ?_
  rw [find?_eq_some_iff, find?_eq_some_iff]
  constructor
  · rintro ⟨target, hl, he⟩
    have hne : target ≠ place := by
      rintro rfl
      exact h hl
    exact ⟨target, locate_of_put_ok hp hl hne, by rwa [found_put_of_ne hp hne] at he⟩
  · rintro ⟨target, hl, he⟩
    have hl' : (tree.put place content).locate path = .ok target := locate_put_of_ok hp hl
    have hne : target ≠ place := by
      rintro rfl
      exact h hl'
    exact ⟨target, hl', by rwa [found_put_of_ne hp hne]⟩

theorem locate_ne_of_names (hn : IsProper name) (hnames : Path.names path = front ++ [name])
    (hlast : place.getLast? ≠ some name) : tree.locate path ≠ .ok place := by
  intro h
  obtain ⟨-, hwalk⟩ := locate_ok.1 h
  rw [hnames] at hwalk
  exact hlast (getLast?_walk hn hwalk)

/-- A path leads nowhere when nothing has its last name. -/
theorem find?_eq_none_of_names (hn : IsProper name) (hslash : name ≠ "/")
    (hnames : Path.names path = front ++ [name])
    (h : ∀ entry ∈ tree.entries, entry.1.getLast? ≠ some name) : tree.find? path = none := by
  refine Option.eq_none_iff_forall_ne_some.2 fun entry hentry => ?_
  obtain ⟨target, hl, he⟩ := find?_eq_some_iff.1 hentry
  obtain ⟨-, hwalk⟩ := locate_ok.1 hl
  have hlast := getLast?_walk hn (hnames ▸ hwalk)
  unfold entry? at he
  split at he
  · rename_i htop
    have hmem := List.mem_of_getLast? hlast
    simp only [isTop, Bool.or_eq_true, decide_eq_true_eq, List.all_eq_true] at htop
    rcases htop with rfl | hall
    · exact hslash (by simpa using hmem)
    · exact hn.2.2 (hall name hmem)
  · exact h _ (Table.mem_of_get? he) hlast

theorem readBytes_ok :
    tree.readBytes path = .ok content ↔ tree.find? path = some (.file content) := by
  rw [readBytes, find?]
  cases tree.locate path with
  | error => simp
  | ok place =>
    dsimp only
    split <;> simp_all

theorem isFile_iff :
    tree.isFile path = true ↔ ∃ content, tree.find? path = some (.file content) := by
  unfold isFile
  split <;> simp_all

-- ---------------------------------------------------------------------------
-- Where a path is written to
-- ---------------------------------------------------------------------------

theorem dropWhile_reverse_eq (hlast : names.getLast? ≠ some "") {before : List String}
    (h : names.reverse.dropWhile (· = "") = name :: before) :
    names = before.reverse ++ [name] ∧ name ≠ "" := by
  rw [← List.head?_reverse] at hlast
  have hr : names.reverse = name :: before := by
    cases hrev : names.reverse with
    | nil => rw [hrev] at h; cases h
    | cons last more =>
      have hne : ¬last = "" := by simpa [hrev] using hlast
      rwa [hrev, List.dropWhile_cons_of_neg (by simpa using hne)] at h
  refine ⟨?_, ?_⟩
  · rw [← List.reverse_reverse names, hr, List.reverse_cons]
  · rintro rfl
    exact hlast (by rw [hr, List.head?_cons])

theorem target_ok (h : tree.target path = .ok place) :
    ∃ before name above, IsPath path ∧ Path.names path = before ++ [name] ∧ IsProper name ∧
      tree.walk (origin path) before = .ok above ∧ tree.entry? above = some .directory ∧
      place = above ++ [name] ∧ tree.Fillable place := by
  unfold target at h
  split at h
  · cases h
  split at h
  · cases h
  rename_i hnul hempty
  dsimp only at h
  split at h
  · cases h
  rename_i name before hdrop
  split at h
  · cases h
  rename_i above hwalk
  split at h
  · rename_i hdir
    split at h
    · cases h
    split at h
    · cases h
    rename_i hn hfill
    cases h
    simp only [Bool.or_eq_true, decide_eq_true_eq, not_or] at hn
    obtain ⟨hnames, hne⟩ := dropWhile_reverse_eq hn.2 hdrop
    exact ⟨before.reverse, name, above, ⟨by simpa using hnul, hempty⟩, hnames,
      ⟨hne, hn.1.1, hn.1.2⟩, hwalk, hdir, rfl, hfill⟩
  · cases h

theorem target_name (hpath : IsPath name) (horigin : origin name = []) (hn : IsProper name)
    (hnames : Path.names name = [name]) :
    tree.target name = .ok place ↔ place = [name] ∧ tree.Fillable [name] := by
  constructor
  · intro h
    obtain ⟨before, last, above, -, hsplit, -, hwalk, -, rfl, hfill⟩ := target_ok h
    have hbare : before = [] ∧ last = name := by
      rw [hnames] at hsplit
      cases before with
      | nil => exact ⟨rfl, (List.cons.inj hsplit).1.symm⟩
      | cons first before => simp at hsplit
    obtain ⟨rfl, rfl⟩ := hbare
    obtain ⟨-, habove⟩ := walk_nil_ok.1 (horigin ▸ hwalk)
    subst habove
    exact ⟨rfl, hfill⟩
  · rintro ⟨rfl, hfill⟩
    obtain ⟨hempty, hdot, hdots⟩ := hn
    have hnul : '\x00' ∉ name.toList := by simpa using hpath.1
    have htop : tree.walk [] [] = .ok [] := rfl
    have hfill : ¬ entry? tree [name] = some .directory := hfill
    have hdirectory : entry? tree [] = some .directory := rfl
    simp [target, hnul, hempty, hnames, horigin, htop, hdirectory, hdot, hdots, hfill]

theorem fillable_of_target (h : tree.target path = .ok place) : tree.Fillable place := by
  obtain ⟨-, -, -, -, -, -, -, -, -, hfill⟩ := target_ok h
  exact hfill

theorem locate_put_target (h : tree.target path = .ok place) :
    (tree.put place content).locate path = .ok place := by
  obtain ⟨before, name, above, hpath, hnames, hn, hwalk, hdir, rfl, hfill⟩ := target_ok h
  refine locate_ok.2 ⟨hpath, ?_⟩
  rw [hnames, walk_append (walk_put_of_ok hfill hwalk),
    walk_proper hn ((found_put_directory hfill).2 hdir), walk_nil_ok, found_put_self hfill]
  exact ⟨rfl, rfl⟩

/-- What was written is read back, and no other place is touched. -/
theorem write_frame (h : tree.write path content = .ok tree') :
    tree'.readBytes path = .ok content ∧ ∃ place, tree.target path = .ok place ∧
      ∀ other, other ≠ place → entry? tree' other = tree.entry? other := by
  obtain ⟨place, ht, rfl⟩ := write_ok.1 h
  have hfill := fillable_of_target ht
  refine ⟨?_, place, ht, fun other hne => found_put_of_ne hfill hne⟩
  rw [readBytes_ok]
  exact find?_put_of_locate hfill (locate_put_target ht)

end ViewRollout.Files.Tree
