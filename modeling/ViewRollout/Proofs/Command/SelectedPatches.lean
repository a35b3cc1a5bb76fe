import Mathlib.Data.List.Sort
import Mathlib.Data.List.Sublists
import ViewRollout.Proofs.Command.Deployment
import ViewRollout.Proofs.Sequence.Display
import ViewRollout.Proofs.Sequence.HistoryRows
import ViewRollout.Proofs.Sequence.Selection

/-!
# The patches that are put out

`cat_selects`: which patches of a sequence a run lists or puts out, told by
their places in the whole sequence. Before anything is selected all patches
are looked for; when some are no files, the run fails with these and has put
out nothing.
-/

namespace ViewRollout.Command

open Files (Tree World)
open Sequence (Cuts Progress UnderAny countPatches patchesFrom)

variable {world : World} {files : Tree} {options : CatRequest} {s selected : Sequence}
variable {invocation : Invocation} {filename : String} {start stop place : Nat}

/-- The whole sequence that is asked for: that of the patches that are named, or else that of the
sequence file. -/
structure Named (files : Tree) (options : CatRequest) (s : Sequence) : Prop where
  patches : options.patches ≠ [] → s = Sequence.ofPatches options.patches
  file : options.patches = [] → ∃ text, files.HoldsText options.file text ∧ s = Sequence.parse text

/-- The patches of a sequence that are no files of the working directory. -/
def missingPatches (files : Tree) (s : Sequence) : List String :=
  s.filenames.filter fun filename => !files.isFile (Files.Path.join "." filename)

/-- The patch stands at the place, in the range from `start` up to `stop`, it is one of the first
of the range, as many as there is a limit to, and it is under a category. -/
structure Asked (s : Sequence) (options : CatRequest) (start stop place : Nat) (filename : String) :
    Prop where
  patch : (s.entries[place]?).bind (·.filename) = some filename
  behind : start ≤ place
  before : place < stop
  first : ∀ limit ∈ options.limit, countPatches ((s.entries.take place).drop start) < limit
  category : UnderAny options.categories filename

-- ---------------------------------------------------------------------------
-- The selection
-- ---------------------------------------------------------------------------

def limited (options : CatRequest) (range : Sequence) : Sequence :=
  match options.limit with
  | some n => range.limit n
  | none => range

theorem selection_ok : selection s options = .ok selected ↔
    ∃ start stop, s.Cuts options.start options.stop start stop ∧
      selected = (limited options ⟨(s.entries.take stop).drop start⟩).ofCategories
        options.categories := by
  have hmap : selection s options =
      (s.slice options.start options.stop).map fun range =>
        (limited options range).ofCategories options.categories := rfl
  rw [hmap]
  constructor
  · intro h
    cases hslice : s.slice options.start options.stop with
    | error => simp [hslice, Except.map] at h
    | ok range =>
      obtain ⟨start, stop, hcuts, rfl⟩ := Sequence.slice_ok.1 hslice
      rw [hslice, Except.map, Except.ok.injEq] at h
      exact ⟨start, stop, hcuts, h.symm⟩
  · rintro ⟨start, stop, hcuts, rfl⟩
    rw [Sequence.slice_ok.2 ⟨start, stop, hcuts, rfl⟩, Except.map]

/-- How many patches of a range there may be at most. -/
def mostPatches (options : CatRequest) (range : List Sequence.Entry) : Nat :=
  options.limit.getD (countPatches range)

/-- The patches that are asked for, each with its place in the whole sequence. -/
def chosen (s : Sequence) (options : CatRequest) (start stop : Nat) : List (Nat × String) :=
  let range := (s.entries.take stop).drop start
  ((patchesFrom start range).take (mostPatches options range)).filter
    (UnderAny options.categories ·.2)

theorem filenames_limited (options : CatRequest) (range : List Sequence.Entry) :
    (limited options ⟨range⟩).filenames =
      (range.filterMap (·.filename)).take (mostPatches options range) := by
  rw [limited, mostPatches]
  cases options.limit with
  | none =>
    rw [Option.getD_none, countPatches, ← List.length_filterMap_eq_countP, List.take_length]
    rfl
  | some n => exact Sequence.filenames_limit ⟨range⟩ n

theorem map_snd_chosen (s : Sequence) (options : CatRequest) (start stop : Nat) :
    (chosen s options start stop).map (·.2) =
      ((limited options ⟨(s.entries.take stop).drop start⟩).ofCategories
        options.categories).filenames := by
  rw [chosen, Sequence.filenames_ofCategories, filenames_limited,
    ← Sequence.map_snd_patchesFrom start, ← List.map_take, List.filter_map]
  rfl

theorem pairwise_chosen (s : Sequence) (options : CatRequest) (start stop : Nat) :
    (chosen s options start stop).Pairwise (·.1 < ·.1) :=
  (Sequence.pairwise_patchesFrom start _).sublist
    (List.filter_sublist.trans (List.take_sublist _ _))

/-- Where the entries of a range stand in the whole sequence. -/
theorem range_eq_append_iff {entries front : List Sequence.Entry} {entry : Sequence.Entry} :
    (∃ back, (entries.take stop).drop start = front ++ entry :: back) ∧
        place = start + front.length ↔
      entries[place]? = some entry ∧ start ≤ place ∧ place < stop ∧
        front = (entries.take place).drop start := by
  constructor
  · rintro ⟨⟨back, hrange⟩, rfl⟩
    have hentry : ((entries.take stop).drop start)[front.length]? = some entry := by
      simp [hrange]
    rw [List.getElem?_drop, List.getElem?_take, Option.ite_none_right_eq_some] at hentry
    have hfront : front = ((entries.take stop).drop start).take front.length := by
      rw [hrange, List.take_left]
    have hle : front.length ≤ stop - start := by omega
    refine ⟨hentry.2, Nat.le_add_right .., hentry.1, ?_⟩
    rw [List.drop_take, List.take_take, Nat.min_eq_left hle] at hfront
    rw [List.drop_take, Nat.add_sub_cancel_left]
    exact hfront
  · rintro ⟨hentry, hle, hlt, rfl⟩
    obtain ⟨i, rfl⟩ := Nat.exists_eq_add_of_le hle
    have hi : ((entries.take stop).drop start)[i]? = some entry := by
      rw [List.getElem?_drop, List.getElem?_take, if_pos hlt, hentry]
    obtain ⟨hlen, hget⟩ := List.getElem?_eq_some_iff.1 hi
    have hfront : (entries.take (start + i)).drop start =
        ((entries.take stop).drop start).take i := by
      rw [List.drop_take, List.drop_take, List.take_take, Nat.add_sub_cancel_left,
        Nat.min_eq_left (by omega)]
    rw [hfront]
    refine ⟨⟨((entries.take stop).drop start).drop (i + 1), ?_⟩, ?_⟩
    · rw [← hget, List.getElem_cons_drop, List.take_append_drop]
    · rw [List.length_take, Nat.min_eq_left (Nat.le_of_lt hlen)]

theorem mem_chosen : (place, filename) ∈ chosen s options start stop ↔
    Asked s options start stop place filename := by
  rw [chosen, List.mem_filter, Sequence.mem_patchesFrom_take]
  constructor
  · rintro ⟨⟨front, entry, back, hrange, hplace, hname, hcount⟩, hcategory⟩
    obtain ⟨hentry, hle, hlt, rfl⟩ := range_eq_append_iff.1 ⟨⟨back, hrange⟩, hplace⟩
    refine ⟨by rw [hentry]; exact hname, hle, hlt, fun n hn => ?_, of_decide_eq_true hcategory⟩
    simpa [mostPatches, Option.mem_def.1 hn] using hcount
  · rintro ⟨hpatch, hle, hlt, hfirst, hcategory⟩
    obtain ⟨entry, hentry, hname⟩ := Option.bind_eq_some_iff.1 hpatch
    obtain ⟨⟨back, hrange⟩, hplace⟩ := range_eq_append_iff.2 ⟨hentry, hle, hlt, rfl⟩
    refine ⟨⟨_, entry, back, hrange, hplace, hname, ?_⟩, decide_eq_true hcategory⟩
    rw [mostPatches]
    cases hlimit : options.limit with
    | none =>
      rw [Option.getD_none, hrange]
      simp [countPatches, hname]
    | some n => exact hfirst n hlimit

/-- There is only one list of what is asked for. -/
theorem eq_chosen {asked : List (Nat × String)} (hpairwise : asked.Pairwise (·.1 < ·.1))
    (hasked : ∀ place filename,
      (place, filename) ∈ asked ↔ Asked s options start stop place filename) :
    asked = chosen s options start stop := by
  have : Std.Irrefl fun a b : Nat × String => a.1 < b.1 := ⟨fun a => Nat.lt_irrefl a.1⟩
  have : Std.Antisymm fun a b : Nat × String => a.1 < b.1 :=
    ⟨fun a b hab hba => absurd hba (Nat.lt_asymm hab)⟩
  exact hpairwise.eq_of_mem_iff (pairwise_chosen ..) fun ⟨place, filename⟩ =>
    (hasked place filename).trans mem_chosen.symm

theorem sublist_selected (options : CatRequest) (range : Sequence) :
    ((limited options range).ofCategories options.categories).entries.Sublist range.entries := by
  have hlimited : (limited options range).entries.Sublist range.entries := by
    rw [limited]
    split
    · rw [Sequence.limit]
      split
      · exact .refl _
      · exact (Sequence.takePatches_isPrefix _ _).sublist
    · exact .refl _
  refine List.Sublist.trans ?_ hlimited
  rw [Sequence.ofCategories]
  split
  · exact .refl _
  · exact List.filter_sublist

-- ---------------------------------------------------------------------------
-- The whole sequence
-- ---------------------------------------------------------------------------

theorem ask_missing (root : String) (filenames : List String) (world : World) :
    world.ask (Sequence.missing root filenames) =
      (filenames.filter fun filename => !world.files.isFile (Files.Path.join root filename),
        world) := by
  induction filenames with
  | nil => rfl
  | cons filename filenames ih =>
    rw [Sequence.missing, Files.ask_bind, Files.ask_isFile]
    dsimp only
    rw [Files.ask_bind, ih, List.filter_cons]
    cases world.files.isFile (Files.Path.join root filename) <;> rfl

theorem run_check (s : Sequence) (world : World) :
    world.run (s.check ".") = (if missingPatches world.files s = [] then .ok ()
      else .error (.noSuchFiles (missingPatches world.files s)), world) := by
  rw [Sequence.check, Files.run_bind, Files.run_lift, ask_missing]
  rw [show (s.filenames.filter fun filename =>
    !world.files.isFile (Files.Path.join "." filename)) = missingPatches world.files s from rfl]
  cases missingPatches world.files s <;> rfl

theorem run_checked (s : Sequence) (check : Bool) (world : World) :
    world.run (if check then s.check "." >>= fun _ => pure s else pure s) =
      (if check = true ∧ missingPatches world.files s ≠ [] then
        .error (.noSuchFiles (missingPatches world.files s)) else .ok s, world) := by
  cases check with
  | false => simp
  | true =>
    rw [if_pos rfl, Files.run_bind, run_check]
    by_cases hmissing : missingPatches world.files s = [] <;> simp [hmissing]

theorem run_wholeSequence (h : Named world.files options s) :
    world.run (wholeSequence options) =
      (if options.check = true ∧ missingPatches world.files s ≠ [] then
        .error (.noSuchFiles (missingPatches world.files s)) else .ok s, world) := by
  rw [← run_checked, wholeSequence]
  split
  · rename_i hempty
    obtain ⟨text, htext, rfl⟩ := h.file (List.isEmpty_iff.1 hempty)
    rw [Files.run_bind, Sequence.load, Files.run_bind, Files.readText_ok.2 ⟨htext, rfl⟩]
    rfl
  · rename_i hempty
    rw [h.patches fun hnil => hempty (List.isEmpty_iff.2 hnil)]
    rfl

-- ---------------------------------------------------------------------------
-- The whole run
-- ---------------------------------------------------------------------------

theorem perform_cat (h : invocation.request = .cat options) :
    perform (m := StateM World) invocation = cat options invocation.verbose := by
  rw [perform, h]

/-- The world after the number of selected patches was told, if it is. -/
def noted (world : World) (verbose : Bool) (s : Sequence) : World :=
  if verbose then
    world.told (world.messages ++ ("Selected " ++ toString s.filenames.length ++ " patches\n"))
  else world

def putOutSelected (options : CatRequest) (s : Sequence) :
    ExceptT Failure (StateM World) Unit :=
  ExceptT.adapt .sequence (if options.listing then s.list else s.cat "." options.check)

/-- The list of a selection, or that there is nothing in it. -/
def listed (s : Sequence) : Bytes :=
  (if s.isEmpty then Text.bytes "No entries\n" else []) ++
    s.entries.flatMap fun entry => Text.bytes (entry.display ++ "\n")

theorem bytes_listing (s : Sequence) : Text.bytes s.listing = listed s := by
  rw [Sequence.listing, listed]
  split
  · rename_i hempty
    rw [List.isEmpty_iff.1 hempty, List.flatMap_nil, List.append_nil]
  · rw [Sequence.bytes_written, List.nil_append]

theorem run_list (hroom : world.output.room = none) (s : Sequence) :
    world.run s.list = (.ok (), world.printed (listed s)) := by
  rw [Sequence.run_list, Files.takes_of_room hroom, if_pos rfl, bytes_listing]

theorem output_noted (world : World) (verbose : Bool) (s : Sequence) :
    (noted world verbose s).output = world.output := by
  cases verbose <;> rfl

theorem files_noted (world : World) (verbose : Bool) (s : Sequence) :
    (noted world verbose s).files = world.files := by
  cases verbose <;> rfl

theorem run_cat_missing (hnamed : Named world.files options s) (hcheck : options.check = true)
    (hmissing : missingPatches world.files s ≠ []) (verbose : Bool) :
    world.run (cat options verbose) =
      (.error (.sequence (.noSuchFiles (missingPatches world.files s))), world) := by
  rw [cat, Files.run_bind, Files.run_adapt, run_wholeSequence hnamed, if_pos ⟨hcheck, hmissing⟩]

theorem run_cat_selected (hnamed : Named world.files options s)
    (hmissing : options.check = true → missingPatches world.files s = [])
    (hselected : selection s options = .ok selected) (verbose : Bool) :
    world.run (cat options verbose) =
      (noted world verbose selected).run (putOutSelected options selected) := by
  rw [cat, Files.run_bind, Files.run_adapt, run_wholeSequence hnamed,
    if_neg fun h => h.2 (hmissing h.1)]
  dsimp only
  rw [Files.run_bind, Files.run_adapt, Files.run_given, hselected]
  dsimp only
  rw [Files.run_bind, note, noted]
  cases verbose <;> rfl

theorem ran_patches (hroom : world.output.room = none) (hlisting : options.listing = false)
    (verbose : Bool) {asked : List (Nat × String)} (hasked : selected.filenames = asked.map (·.2)) :
    ∃ done rest, Progress world.files "." options.check (asked.map (·.2)) done rest ∧
      (((noted world verbose selected).run (putOutSelected options selected)).1 = .ok () ↔
        rest = []) ∧
      ((noted world verbose selected).run (putOutSelected options selected)).2.output =
        (world.printed (Sequence.output done rest)).output := by
  rw [← output_noted world verbose selected] at hroom
  obtain ⟨done, rest, hp, hok, hout⟩ :=
    @Sequence.exists_progress _ "." options.check hroom selected.filenames
  rw [files_noted, hasked] at hp
  rw [putOutSelected, if_neg (by simp [hlisting]), Files.adapt_ok, Files.world_adapt]
  refine ⟨done, rest, hp, hok, ?_⟩
  rw [show ((noted world verbose selected).run (selected.cat "." options.check)).2 = _ from hout,
    World.printed, World.printed, output_noted]

theorem code_run {arguments : List String} (h : Invocation.parse arguments = .ok invocation) :
    (world.ask (run arguments)).1 = 0 ↔ (world.run (perform invocation)).1 = .ok () := by
  rw [ask_run h]
  rcases world.run (perform invocation) with ⟨_ | _, next⟩ <;> simp

theorem output_run {arguments : List String} (h : Invocation.parse arguments = .ok invocation) :
    (world.ask (run arguments)).2.output = (world.run (perform invocation)).2.output := by
  rw [ask_run h]
  rcases world.run (perform invocation) with ⟨_ | _, next⟩ <;> rfl

/-- When a patch of the whole sequence is no file, and this is checked, the run fails with all such
patches and puts nothing out. Otherwise, when there is a range between the markers, the patches of
what is put out are those that are asked for, in the order of their places. -/
theorem cat_selects {arguments : List String}
    (hparse : Invocation.parse arguments = .ok invocation)
    (hcat : invocation.request = .cat options) (world : World)
    (hnamed : Named world.files options s) :
    (options.check = true → missingPatches world.files s ≠ [] →
      world.ask (run arguments) = (1, world.told (world.messages ++
        ("Error: Not a file: " ++ Text.quotedList (missingPatches world.files s) ++ "\n")))) ∧
    ((options.check = true → missingPatches world.files s = []) →
      ∀ start stop, s.Cuts options.start options.stop start stop →
        ∃ (selected : Sequence) (asked : List (Nat × String)),
          asked.Pairwise (·.1 < ·.1) ∧
          (∀ place filename,
            (place, filename) ∈ asked ↔ Asked s options start stop place filename) ∧
          selected.filenames = asked.map (·.2) ∧ selected.entries.Sublist s.entries ∧
          world.run (perform invocation) =
            (noted world invocation.verbose selected).run (putOutSelected options selected) ∧
          (world.output.room = none → options.listing = true →
            world.ask (run arguments) =
              (0, (noted world invocation.verbose selected).printed (listed selected))) ∧
          (world.output.room = none → options.listing = false →
            ∃ done rest, Progress world.files "." options.check (asked.map (·.2)) done rest ∧
              ((world.ask (run arguments)).1 = 0 ↔ rest = []) ∧
              (world.ask (run arguments)).2.output =
                (world.printed (Sequence.output done rest)).output)) := by
  refine ⟨fun hcheck hmissing => ?_, fun hmissing start stop hcuts => ?_⟩
  · rw [ask_run hparse, perform_cat hcat, run_cat_missing hnamed hcheck hmissing]
    rfl
  · have hselected := selection_ok.2 ⟨start, stop, hcuts, rfl⟩
    have hasked := (map_snd_chosen s options start stop).symm
    have hsublist := sublist_selected options ⟨(s.entries.take stop).drop start⟩
    generalize (limited options ⟨(s.entries.take stop).drop start⟩).ofCategories
      options.categories = selected at hselected hasked hsublist
    have hrun := run_cat_selected hnamed hmissing hselected invocation.verbose
    rw [← perform_cat hcat] at hrun
    refine ⟨selected, chosen s options start stop, pairwise_chosen .., fun _ _ => mem_chosen,
      hasked, ?_, hrun, fun hroom hlisting => ?_, fun hroom hlisting => ?_⟩
    · exact hsublist.trans ((List.drop_sublist _ _).trans (List.take_sublist _ _))
    · rw [← output_noted world invocation.verbose selected] at hroom
      rw [ask_run hparse, hrun, putOutSelected, if_pos hlisting, Files.run_adapt, run_list hroom]
    · rw [code_run hparse, output_run hparse, hrun]
      exact ran_patches hroom hlisting invocation.verbose hasked

/-- A working directory with a sequence of two patches, of which the second one is missing. -/
def sampleSequence : World where
  files := (Tree.empty.addFile "sequence.txt" (Text.bytes "# One\na.sql\n# Two\nb.sql\n")).addFile
    "a.sql" (Text.bytes "SELECT 1\n")
  input := []
  output := .ofRoom none
  messages := ""
  environment := []

def sampleEntries : List Sequence.Entry :=
  [⟨some "# One", some "a.sql"⟩, ⟨some "# Two", some "b.sql"⟩]

theorem named_sampleSequence (hfile : options.file = "sequence.txt")
    (hpatches : options.patches = []) : Named sampleSequence.files options ⟨sampleEntries⟩ := by
  refine ⟨fun h => absurd hpatches h, fun _ => ?_⟩
  rw [hfile]
  exact ⟨"# One\na.sql\n# Two\nb.sql\n", ⟨_, rfl, by decide +kernel⟩, by decide +kernel⟩

/-- The first patch is there, but all patches are looked for; the second one is listed when they
are not. -/
theorem cat_selects_sample :
    sampleSequence.ask (run ["cat", "-n", "1"]) =
        (1, sampleSequence.told "Error: Not a file: [\"b.sql\"]\n") ∧
      sampleSequence.ask (run ["cat", "--nocheck", "--list", "--from", "Two"]) =
        (0, sampleSequence.printed (Text.bytes "# Two\nb.sql\n")) := by
  refine ⟨?_, ?_⟩
  · have hparse : Invocation.parse ["cat", "-n", "1"] = .ok ⟨none, false,
        .cat ⟨"sequence.txt", [], [], none, none, some 1, false, true⟩⟩ := by decide +kernel
    exact (cat_selects hparse rfl sampleSequence (named_sampleSequence rfl rfl)).1 rfl
      (by decide +kernel)
  · have hparse : Invocation.parse ["cat", "--nocheck", "--list", "--from", "Two"] =
        .ok ⟨none, false, .cat ⟨"sequence.txt", [], [], some "Two", none, none, true, false⟩⟩ := by
      decide +kernel
    obtain ⟨selected, asked, hpairwise, hasked, hfilenames, hsublist, -, hlisted, -⟩ :=
      (cat_selects hparse rfl sampleSequence (named_sampleSequence rfl rfl)).2 nofun 1 2
        ⟨Sequence.find?_eq_some_iff.1 (by decide +kernel), rfl⟩
    rw [eq_chosen hpairwise hasked] at hfilenames
    have hsample : ∀ entries ∈ sampleEntries.sublists,
        entries.filterMap (·.filename) = ["b.sql"] →
          entries = [⟨some "# Two", some "b.sql"⟩] := by decide +kernel
    have hselected : selected.entries = [⟨some "# Two", some "b.sql"⟩] :=
      hsample _ (List.mem_sublists.2 hsublist) (hfilenames.trans (by decide +kernel))
    rw [hlisted rfl rfl, listed, Sequence.isEmpty, hselected]
    rfl

end ViewRollout.Command
