import ViewRollout.Proofs.Files.Run
import ViewRollout.Sequence.Output

/-!
# History rows and their patches

`cat_complete_iff`: what has been put out when a run ends, also when it ends
in a failure. The patches before the one that cannot be had are complete. Of
that one nothing is put out when it is the patch that makes the history, which
is read first; of any other the row is there already when its text is asked
for, and stays there alone.
-/

namespace ViewRollout.Sequence

open Files Text

variable {world world' : World} {root filename patch : String} {filenames : List String}
variable {ascii : Bool}

/-- The text that a patch file has to be put out: it is trimmed, and it is ASCII if it has to be. -/
def HasPatch (files : Tree) (root filename : String) (ascii : Bool) (patch : String) :
    Prop :=
  ∃ text, files.HoldsText (Path.join root filename) text ∧
    patch = String.ofList (trim text.toList) ∧
      (ascii = true → ∀ c ∈ patch.toList, c.toNat < 0x80)

def block (filename patch : String) : Bytes :=
  if filename = historyTablePatch then bytes (patch ++ "\n") ++ bytes (historyStatements filename)
  else bytes (historyStatements filename) ++ bytes (patch ++ "\n")

/-- What is put out for a patch before its text is asked for. -/
def strayRow (filename : String) : Bytes :=
  if filename = historyTablePatch then [] else bytes (historyStatements filename)

/-- Of the patches those of `done` can be had, with these texts; the first one of `rest` cannot. -/
structure Progress (files : Tree) (root : String) (ascii : Bool) (filenames : List String)
    (done : List (String × String)) (rest : List String) : Prop where
  split : filenames = done.map (·.1) ++ rest
  had : ∀ p ∈ done, HasPatch files root p.1 ascii p.2
  stuck : ∀ filename ∈ rest.head?, ∀ patch, ¬HasPatch files root filename ascii patch

-- ---------------------------------------------------------------------------
-- One patch
-- ---------------------------------------------------------------------------

theorem readPatch_ok :
    world.run (readPatch root filename ascii) = (.ok patch, world') ↔
      HasPatch world.files root filename ascii patch ∧ world' = world := by
  simp only [readPatch, bind_ok, readText_ok, HasPatch]
  constructor
  · rintro ⟨text, next, ⟨htext, rfl⟩, h⟩
    split at h
    · simp at h
    · rename_i hascii
      obtain ⟨rfl, rfl⟩ : String.ofList (trim text.toList) = patch ∧ next = world' := by
        simpa using h
      refine ⟨⟨text, htext, rfl, fun ha => ?_⟩, rfl⟩
      simpa [ha] using hascii
  · rintro ⟨⟨text, htext, rfl, hascii⟩, rfl⟩
    refine ⟨text, world', ⟨htext, rfl⟩, ?_⟩
    rw [if_neg (by simpa using hascii)]
    rfl

theorem run_readPatch (h : HasPatch world.files root filename ascii patch) :
    world.run (readPatch root filename ascii) = (.ok patch, world) :=
  readPatch_ok.2 ⟨h, rfl⟩

/-- What is read does not depend on where the output goes. -/
theorem run_readPatch_into (world : World) (sink : Sink) (root filename : String) (ascii : Bool) :
    (world.into sink).run (readPatch root filename ascii) =
      ((world.run (readPatch root filename ascii)).1, world.into sink) := by
  have hfiles : (world.into sink).files = world.files := rfl
  rw [readPatch, run_bind, run_bind, run_attempt, run_attempt, ask_readText, ask_readText, hfiles]
  cases (world.files.readBytes (Path.join root filename)).bind textOf with
  | error fault => rfl
  | ok text =>
    dsimp only
    split <;> rfl

theorem prints_readPatch (h : HasPatch world.files root filename ascii patch) :
    Prints (.unwritable .full) (readPatch root filename ascii) world (.ok patch) [] :=
  .of_run fun _ => run_readPatch h

theorem readPatch_ne_unwritable (world : World) (root filename : String) (ascii : Bool)
    (fault : Fault) :
    (world.run (readPatch root filename ascii)).1 ≠ .error (.unwritable fault) := by
  rw [readPatch, run_bind, run_attempt, ask_readText]
  cases (world.files.readBytes (Path.join root filename)).bind textOf with
  | error fault => simp
  | ok text =>
    dsimp only
    split <;> simp

theorem prints_readPatch_error (h : ∀ patch, ¬HasPatch world.files root filename ascii patch) :
    ∃ error, (∀ fault, error ≠ .unwritable fault) ∧
      Prints (.unwritable .full) (readPatch root filename ascii) world (.error error) [] := by
  have hinto := fun sink => run_readPatch_into world sink root filename ascii
  have hne := readPatch_ne_unwritable world root filename ascii
  cases hr : (world.run (readPatch root filename ascii)).1 with
  | ok patch =>
    have hrun := hinto world.output
    rw [hr] at hrun
    exact absurd (readPatch_ok.1 hrun).1 (h patch)
  | error error =>
    rw [hr] at hne
    exact ⟨error, fun fault he => hne fault (congrArg _ he), .of_run fun sink => by rw [hinto, hr]⟩

theorem run_print (text : String) (world : World) :
    world.run (print text) =
      (if world.takes (bytes text) then .ok () else .error (.unwritable .full),
        world.printed (bytes text)) := by
  rw [print, run_attempt, ask_print_eq]
  cases world.takes (bytes text) <;> rfl

theorem run_printText (h : world.output.room = none) (text : String) :
    world.run (print text) = (.ok (), world.printed (bytes text)) := by
  rw [run_print, takes_of_room h, if_pos rfl]

theorem prints_print (text : String) (world : World) :
    Prints (.unwritable .full) (print text) world (.ok ()) (bytes text) :=
  fun sink => run_print text (world.into sink)

theorem prints_catPatch (h : HasPatch world.files root filename ascii patch) :
    Prints (.unwritable .full) (catPatch root filename ascii) world (.ok ())
      (block filename patch) := by
  have hread := prints_readPatch h
  rw [catPatch, block]
  split
  · exact hread.bind ((prints_print _ world).bind (prints_print _ world))
  · exact (prints_print _ world).bind (hread.bind (prints_print _ world))

theorem prints_catPatch_error (h : ∀ patch, ¬HasPatch world.files root filename ascii patch) :
    ∃ error, (∀ fault, error ≠ .unwritable fault) ∧
      Prints (.unwritable .full) (catPatch root filename ascii) world (.error error)
        (strayRow filename) := by
  obtain ⟨error, hne, hread⟩ := prints_readPatch_error h
  refine ⟨error, hne, ?_⟩
  rw [catPatch, strayRow]
  split
  · exact hread.bind_error
  · rw [← List.append_nil (bytes (historyStatements filename))]
    exact (prints_print _ world).bind hread.bind_error

-- ---------------------------------------------------------------------------
-- How far a run comes
-- ---------------------------------------------------------------------------

section
variable {files : Tree} {done done' : List (String × String)} {rest rest' : List String}

theorem HasPatch.unique {patch' : String} (h : HasPatch files root filename ascii patch)
    (h' : HasPatch files root filename ascii patch') : patch = patch' := by
  obtain ⟨_, ⟨content, hread, htext⟩, rfl, -⟩ := h
  obtain ⟨_, ⟨content', hread', htext'⟩, rfl, -⟩ := h'
  cases hread.symm.trans hread'
  cases htext.symm.trans htext'
  rfl

theorem Progress.not_stuck (h : Progress files root ascii filenames [] rest) {p : String × String}
    (h' : Progress files root ascii filenames (p :: done') rest') : False := by
  have hsplit : rest = p.1 :: (done'.map (·.1) ++ rest') := h.split.symm.trans h'.split
  exact h.stuck p.1 (by simp [hsplit]) p.2 (h'.had p (List.mem_cons_self ..))

/-- The files alone settle how far a run comes, and with which texts. -/
theorem Progress.unique (h : Progress files root ascii filenames done rest)
    (h' : Progress files root ascii filenames done' rest') : done = done' ∧ rest = rest' := by
  induction done generalizing filenames done' with
  | nil =>
    cases done' with
    | nil => exact ⟨rfl, h.split.symm.trans h'.split⟩
    | cons => exact (h.not_stuck h').elim
  | cons p done ih =>
    cases done' with
    | nil => exact (h'.not_stuck h).elim
    | cons p' done' =>
      obtain ⟨hname, hmore⟩ : p.1 = p'.1 ∧ done.map (·.1) ++ rest = done'.map (·.1) ++ rest' :=
        List.cons.inj (h.split.symm.trans h'.split)
      have hp := h.had p (List.mem_cons_self ..)
      rw [hname] at hp
      have hpatch := hp.unique (h'.had p' (List.mem_cons_self ..))
      obtain ⟨rfl, hrest⟩ := ih ⟨rfl, fun q hq => h.had q (List.mem_cons_of_mem _ hq), h.stuck⟩
        ⟨hmore, fun q hq => h'.had q (List.mem_cons_of_mem _ hq), h'.stuck⟩
      exact ⟨by rw [Prod.ext hname hpatch], hrest⟩

end

-- ---------------------------------------------------------------------------
-- All patches
-- ---------------------------------------------------------------------------

/-- What is put out in a run that gets through `done` and stops before `rest`. -/
def output (done : List (String × String)) (rest : List String) : Bytes :=
  done.flatMap (fun p => block p.1 p.2) ++ rest.head?.elim [] strayRow

theorem prints_catPatches (world : World) (root : String) (ascii : Bool)
    (filenames : List String) :
    ∃ done rest result, Progress world.files root ascii filenames done rest ∧
      (result = .ok () ↔ rest = []) ∧ (∀ fault, result ≠ .error (.unwritable fault)) ∧
      Prints (.unwritable .full) (catPatches root ascii filenames) world result
        (output done rest) := by
  induction filenames with
  | nil => exact ⟨[], [], .ok (), ⟨rfl, nofun, nofun⟩, by simp, nofun, .of_run fun _ => rfl⟩
  | cons filename filenames ih =>
    by_cases h : ∃ patch, HasPatch world.files root filename ascii patch
    · obtain ⟨patch, h⟩ := h
      obtain ⟨done, rest, result, hp, hok, hne, hprints⟩ := ih
      refine ⟨(filename, patch) :: done, rest, result, ⟨?_, ?_, hp.stuck⟩, hok, hne, ?_⟩
      · rw [hp.split, List.map_cons, List.cons_append]
      · exact List.forall_mem_cons.2 ⟨h, hp.had⟩
      · rw [catPatches, output, List.flatMap_cons, List.append_assoc]
        exact (prints_catPatch h).bind hprints
    · have hnone := not_exists.1 h
      obtain ⟨error, hne, hprints⟩ := prints_catPatch_error hnone
      refine ⟨[], filename :: filenames, .error error, ⟨rfl, nofun, ?_⟩, by simp, ?_, ?_⟩
      · rintro _ ⟨⟩
        exact hnone
      · simpa using hne
      · rw [catPatches]
        exact hprints.bind_error

theorem exists_progress (hroom : world.output.room = none) (filenames : List String) :
    ∃ done rest, Progress world.files root ascii filenames done rest ∧
      ((world.run (catPatches root ascii filenames)).1 = .ok () ↔ rest = []) ∧
      (world.run (catPatches root ascii filenames)).2 = world.printed (output done rest) := by
  obtain ⟨done, rest, result, hp, hok, -, hprints⟩ := prints_catPatches world root ascii filenames
  refine ⟨done, rest, hp, ?_⟩
  rw [hprints.run_eq, takes_of_room hroom, if_pos rfl]
  exact ⟨hok, rfl⟩

theorem bytes_historyStatements (filename : String) : bytes (historyStatements filename) ≠ [] := by
  obtain ⟨rest, hrest⟩ :
      ∃ rest, historyStatements filename = "\n-- DB history entry for " ++ rest := by
    unfold historyStatements
    simp only [String.append_assoc]
    exact ⟨_, rfl⟩
  have hfront : bytes "\n-- DB history entry for " ≠ [] := by decide
  rw [hrest, bytes, String.toList_append, encode_append]
  exact fun h => hfront (List.append_eq_nil_iff.1 h).1

theorem strayRow_eq_nil_iff : strayRow filename = [] ↔ filename = historyTablePatch := by
  rw [strayRow]
  split
  · simp [*]
  · simp [*, bytes_historyStatements]

/-- A run over patches whose output takes everything. It ends well exactly when all patches can be
had. What it has put out consists of complete patches, unless it stopped at another patch than the
one that makes the history: then the history row of that patch is left alone at the end. -/
theorem cat_complete_iff (s : Sequence) (root : String) (ascii : Bool) (world : World)
    (hroom : world.output.room = none) :
    ∃ done rest, Progress world.files root ascii s.filenames done rest ∧
      ((world.run (s.cat root ascii)).1 = .ok () ↔ rest = []) ∧
      (world.run (s.cat root ascii)).2 = world.printed
        (done.flatMap (fun p => block p.1 p.2) ++ rest.head?.elim [] strayRow) ∧
      ((world.run (s.cat root ascii)).2 = world.printed (done.flatMap fun p => block p.1 p.2) ↔
        ∀ filename ∈ rest.head?, filename = historyTablePatch) := by
  obtain ⟨done, rest, hp, hok, hout⟩ := exists_progress hroom s.filenames
  refine ⟨done, rest, hp, hok, hout, ?_⟩
  rw [show (world.run (s.cat root ascii)).2 = _ from hout, printed_inj hroom, output]
  cases rest with
  | nil => simp
  | cons filename rest => simp [strayRow_eq_nil_iff]

def sampleWorld : World where
  files := Tree.empty.addFile "a.sql" (bytes " SELECT 1\n")
  input := []
  output := .ofRoom none
  messages := ""
  environment := []

theorem cat_complete_sample :
    sampleWorld.output.room = none ∧
      (sampleWorld.run ((ofPatches ["a.sql", "b.sql"]).cat "." true)).2 =
        sampleWorld.printed (block "a.sql" "SELECT 1" ++ bytes (historyStatements "b.sql")) := by
  have hroom : sampleWorld.output.room = none := rfl
  have hsample : Progress sampleWorld.files "." true ["a.sql", "b.sql"] [("a.sql", "SELECT 1")]
      ["b.sql"] := by
    refine ⟨rfl, ?_, ?_⟩
    · intro p hp
      obtain rfl := List.mem_singleton.1 hp
      exact ⟨" SELECT 1\n", ⟨_, rfl, by decide⟩, by decide, fun _ => by simp⟩
    · rintro _ ⟨⟩ _ ⟨_, ⟨_, hread, -⟩, -⟩
      cases hread
  obtain ⟨done, rest, hp, -, hout, -⟩ :=
    cat_complete_iff (ofPatches ["a.sql", "b.sql"]) "." true sampleWorld hroom
  obtain ⟨rfl, rfl⟩ := hp.unique hsample
  exact ⟨hroom, by simpa [strayRow, historyTablePatch] using hout⟩

/-- The patch is not there, which fails the run, but its row has been put out. -/
theorem cat_rowWithoutPatch :
    sampleWorld.run ((ofPatches ["b.sql"]).cat "." false) =
        (.error (.unreadable "./b.sql" .missing),
          sampleWorld.printed (bytes (historyStatements "b.sql"))) ∧
      sampleWorld.printed (bytes (historyStatements "b.sql")) ≠ sampleWorld := by
  have hroom : sampleWorld.output.room = none := rfl
  have hname : ¬"b.sql" = historyTablePatch := by decide
  have hread : (sampleWorld.printed (bytes (historyStatements "b.sql"))).run
      (readPatch "." "b.sql" false) = (.error (.unreadable "./b.sql" .missing),
        sampleWorld.printed (bytes (historyStatements "b.sql"))) := rfl
  refine ⟨?_, ?_⟩
  · show sampleWorld.run (catPatches "." false ["b.sql"]) = _
    rw [catPatches, run_bind, catPatch, if_neg hname, run_bind, run_printText hroom]
    simp only [run_bind, hread]
  · rw [← printed_nil sampleWorld, printed_printed, List.nil_append]
    exact fun h => bytes_historyStatements _ ((printed_inj hroom).1 h)

end ViewRollout.Sequence
