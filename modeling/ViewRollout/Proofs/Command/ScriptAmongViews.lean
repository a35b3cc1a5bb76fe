import Mathlib.Data.List.Perm.Basic
import ViewRollout.Proofs.Command.StatementEnds
import ViewRollout.Proofs.Command.Configured
import ViewRollout.Proofs.Files.Listing

/-!
# The script among the views

The script that a deployment writes when nothing else is asked for is itself a
SQL file in the directory that the views are taken from. Where there was none,
one written adds a statement to the next one (`rerun_of_no_script`); where there
was one, the next one is the same exactly when the old and the new one are read
as the same statement (`rerun_of_script`).
-/

namespace ViewRollout.Command

open Config (Environment)
open Files (Tree)
open View (Dependencies)

-- ---------------------------------------------------------------------------
-- Texts put together of pieces
-- ---------------------------------------------------------------------------

section Pieces

variable {ι α β : Type} {l : List ι} {f g : ι → List α} {a b : List α}

theorem length_flatMap_le (h : ∀ i ∈ l, f i = g i ∨ f i = a ∧ g i = b)
    (hab : a.length ≤ b.length) : (l.flatMap f).length ≤ (l.flatMap g).length := by
  induction l with
  | nil => exact Nat.le_refl _
  | cons i l ih =>
    obtain ⟨hi, hl⟩ := List.forall_mem_cons.1 h
    have hrest := ih hl
    have hhead : (f i).length ≤ (g i).length := by
      rcases hi with hi | ⟨hf, hg⟩
      · exact Nat.le_of_eq (congrArg List.length hi)
      · rwa [hf, hg]
    simp only [List.flatMap_cons, List.length_append]
    omega

theorem eq_of_flatMap_eq (h : ∀ i ∈ l, f i = g i ∨ f i = a ∧ g i = b)
    (hex : ∃ i ∈ l, f i = a ∧ g i = b) (hab : a.length ≤ b.length)
    (heq : l.flatMap f = l.flatMap g) : a = b := by
  obtain ⟨i, hi, hf, hg⟩ := hex
  obtain ⟨front, rest, rfl⟩ := List.append_of_mem hi
  -- No piece is longer than its counterpart, so the texts have one length only if all pieces do.
  have hfront := length_flatMap_le (fun j hj => h j (by simp [hj])) hab (l := front)
  have hrest := length_flatMap_le (fun j hj => h j (by simp [hj])) hab (l := rest)
  simp only [List.flatMap_append, List.flatMap_cons, hf, hg] at heq
  have hlength := congrArg List.length heq
  simp only [List.length_append] at hlength
  have hbehind := List.append_inj_right heq (by omega)
  exact List.append_inj_left hbehind (by omega)

/-- Two texts of pieces that differ at some places only, where one has `a` and the other `b`, are
the same exactly when `a` and `b` are. -/
theorem flatMap_eq_iff (h : ∀ i ∈ l, f i = g i ∨ f i = a ∧ g i = b)
    (hex : ∃ i ∈ l, f i = a ∧ g i = b) : l.flatMap f = l.flatMap g ↔ a = b := by
  constructor
  · intro heq
    rcases Nat.le_total a.length b.length with hab | hba
    · exact eq_of_flatMap_eq h hex hab heq
    · have h' : ∀ i ∈ l, g i = f i ∨ g i = b ∧ f i = a := fun i hi =>
        (h i hi).imp Eq.symm And.symm
      obtain ⟨i, hi, hf, hg⟩ := hex
      exact (eq_of_flatMap_eq h' ⟨i, hi, hg, hf⟩ hba heq.symm).symm
  · rintro rfl
    exact List.flatMap_congr fun i hi => (h i hi).elim id fun ⟨hf, hg⟩ => hf.trans hg.symm

variable {R S : ι → β → Prop} {m m' : List β}

/-- What two relations give for the elements of a list, element by element. -/
theorem exists_pairs (hR : List.Forall₂ R l m) (hS : List.Forall₂ S l m') :
    ∃ pairs : List (β × β), pairs.map (·.1) = m ∧ pairs.map (·.2) = m' ∧
      (∀ p ∈ pairs, ∃ i ∈ l, R i p.1 ∧ S i p.2) ∧ ∀ i ∈ l, ∃ p ∈ pairs, R i p.1 ∧ S i p.2 := by
  induction hR generalizing m' with
  | nil =>
    cases hS
    exact ⟨[], rfl, rfl, nofun, nofun⟩
  | @cons i b l m hi _ ih =>
    cases hS with
    | @cons _ b' _ m' hi' hS =>
      obtain ⟨pairs, rfl, rfl, hfrom, hto⟩ := ih hS
      refine ⟨(b, b') :: pairs, rfl, rfl, List.forall_mem_cons.2
        ⟨⟨i, List.mem_cons_self .., hi, hi'⟩, fun p hp => ?_⟩, List.forall_mem_cons.2
        ⟨⟨_, List.mem_cons_self .., hi, hi'⟩, fun j hj => ?_⟩⟩
      · obtain ⟨j, hj, hp⟩ := hfrom p hp
        exact ⟨j, List.mem_cons_of_mem _ hj, hp⟩
      · obtain ⟨p, hp, h⟩ := hto j hj
        exact ⟨p, List.mem_cons_of_mem _ hp, h⟩

theorem forall₂_imp_of_mem (hR : List.Forall₂ R l m)
    (h : ∀ i ∈ l, ∀ b, R i b → S i b) : List.Forall₂ S l m :=
  ((List.forall₂_and_left l m).2 ⟨fun i hi => h i hi, hR⟩).imp fun _ b hp => hp.1 b hp.2

theorem exists_forall₂ (h : ∀ i ∈ l, ∃ b, R i b) : ∃ m, List.Forall₂ R l m := by
  induction l with
  | nil => exact ⟨[], .nil⟩
  | cons i l ih =>
    obtain ⟨⟨b, hb⟩, hl⟩ := List.forall_mem_cons.1 h
    obtain ⟨m, hm⟩ := ih hl
    exact ⟨b :: m, .cons hb hm⟩

end Pieces

-- ---------------------------------------------------------------------------
-- The path of the script
-- ---------------------------------------------------------------------------

variable {files : Tree} {environment : Environment} {content : Bytes}
variable {path statement : String} {paths : List String} {substitution : Substitution}

def scriptPath (environment : Environment) : String :=
  Files.Path.join "." (defaultOutput environment)

def scriptPlace (environment : Environment) : Files.Place :=
  [defaultOutput environment]

theorem isProper_defaultOutput (environment : Environment) :
    Tree.IsProper (defaultOutput environment) := by
  cases environment <;> decide

theorem apart_scriptPlace (environment : Environment) : Apart (scriptPlace environment) := by
  cases environment <;> exact ⟨by decide, by decide, by decide⟩

theorem names_defaultOutput (environment : Environment) :
    Files.Path.names (defaultOutput environment) = [defaultOutput environment] := by
  cases environment <;> decide

theorem isPath_defaultOutput (environment : Environment) :
    Tree.IsPath (defaultOutput environment) ∧ Tree.origin (defaultOutput environment) = [] := by
  cases environment <;> exact ⟨by decide, by decide⟩

theorem locate_scriptPath {place : Files.Place} :
    files.locate (scriptPath environment) = .ok place ↔
      (files.entry? (scriptPlace environment)).isSome ∧ scriptPlace environment = place := by
  have hpath : Tree.IsPath (scriptPath environment) ∧
      Tree.origin (scriptPath environment) = [] ∧
      Files.Path.names (scriptPath environment) = [".", defaultOutput environment] := by
    cases environment <;> exact ⟨by decide, by decide, by decide⟩
  obtain ⟨hpath, horigin, hnames⟩ := hpath
  rw [Tree.locate_ok, horigin, hnames, Tree.walk_cons_ok, if_pos (.inr rfl),
    Tree.walk_proper (isProper_defaultOutput environment) rfl, Tree.walk_nil_ok]
  exact ⟨fun h => h.2.2, fun h => ⟨hpath, rfl, h⟩⟩

theorem write_defaultOutput {files' : Tree} :
    files.write (defaultOutput environment) content = .ok files' ↔
      files.Fillable (scriptPlace environment) ∧
        files' = files.put (scriptPlace environment) content := by
  obtain ⟨hpath, horigin⟩ := isPath_defaultOutput environment
  rw [Tree.write_ok]
  simp only [Tree.target_name hpath horigin (isProper_defaultOutput environment)
    (names_defaultOutput environment), and_assoc, exists_eq_left]
  rfl

-- ---------------------------------------------------------------------------
-- The script among the views
-- ---------------------------------------------------------------------------

variable {old : Bytes} {paths' : List String}

theorem listed_script (environment : Environment) :
    Files.Path.extension? (defaultOutput environment) = some "sql" := by
  cases environment <;> decide

theorem mem_discovered (h : files.entry? (scriptPlace environment) = some (.file old))
    (hd : Discovered files "." paths) : scriptPath environment ∈ paths := by
  obtain ⟨listed, hlist, rfl⟩ := hd
  rw [Tree.list_here, Except.ok.injEq] at hlist
  subst hlist
  refine List.mem_map.2 ⟨(defaultOutput environment, true), List.mem_filter.2 ⟨?_, ?_⟩, rfl⟩
  · rw [List.mem_mergeSort]
    exact Tree.mem_unsorted (isProper_defaultOutput environment) h
  · simp [listed_script]

theorem discovered_put_of_file
    (h : files.entry? (scriptPlace environment) = some (.file old)) :
    Discovered (files.put (scriptPlace environment) content) "." paths ↔
      Discovered files "." paths := by
  unfold Discovered
  rw [Tree.list_here, Tree.list_here,
    scriptPlace, Tree.unsorted_put_of_file (isProper_defaultOutput environment) h]

theorem discovered_put_of_none (h : files.entry? (scriptPlace environment) = none)
    (hd : Discovered files "." paths)
    (hd' : Discovered (files.put (scriptPlace environment) content) "." paths') :
    (scriptPath environment :: paths).Perm paths' := by
  obtain ⟨listed, hlist, rfl⟩ := hd
  obtain ⟨listed', hlist', rfl⟩ := hd'
  rw [Tree.list_here, Except.ok.injEq] at hlist hlist'
  rw [scriptPlace, Tree.unsorted_put_of_none (isProper_defaultOutput environment) h] at hlist'
  have hperm : ((defaultOutput environment, true) :: listed).Perm listed' := by
    subst hlist hlist'
    refine ((List.mergeSort_perm ..).cons _).trans (.trans ?_ (List.mergeSort_perm ..).symm)
    exact (List.perm_append_singleton ..).symm
  have hpaths := (hperm.filter fun entry =>
    entry.2 && Files.Path.extension? entry.1 = some "sql").map
      fun entry => Files.Path.join "." entry.1
  simpa [listed_script, scriptPath] using hpaths

/-- A directory with one SQL file. -/
theorem discovered_of_one {name : String} (h : (files.unsorted.filter fun entry =>
    entry.2 && Files.Path.extension? entry.1 = some "sql") = [(name, true)]) :
    Discovered files "." [Files.Path.join "." name] := by
  refine ⟨_, Tree.list_here files, ?_⟩
  have hperm := (List.mergeSort_perm files.unsorted fun a b => !decide (b.1 < a.1)).filter
    fun entry => entry.2 && Files.Path.extension? entry.1 = some "sql"
  rw [h, List.perm_singleton] at hperm
  rw [hperm, List.map_singleton]

theorem find?_scriptPath (files : Tree) (environment : Environment) :
    files.find? (scriptPath environment) = files.entry? (scriptPlace environment) := by
  refine Option.ext fun entry => ?_
  rw [Tree.find?_eq_some_iff]
  simp only [locate_scriptPath]
  constructor
  · rintro ⟨_, ⟨-, rfl⟩, he⟩
    exact he
  · intro he
    exact ⟨_, ⟨by rw [he]; rfl, rfl⟩, he⟩

/-- What a file leads to after the script was written: the script, if it led to the script's place,
and what it led to before otherwise. -/
theorem find?_put_script (hfill : files.Fillable (scriptPlace environment))
    (hfile : files.isFile path = true) (content : Bytes) :
    (files.put (scriptPlace environment) content).find? path = files.find? path ∨
      (files.find? path = files.find? (scriptPath environment) ∧
      (files.put (scriptPlace environment) content).find? path =
        (files.put (scriptPlace environment) content).find? (scriptPath environment)) := by
  obtain ⟨bytes, hfound⟩ := Tree.isFile_iff.1 hfile
  obtain ⟨place, hl, he⟩ := Tree.find?_eq_some_iff.1 hfound
  have hl' : (files.put (scriptPlace environment) content).locate path = .ok place :=
    Tree.locate_put_of_ok hfill hl
  by_cases hplace : place = scriptPlace environment
  · subst hplace
    refine .inr ⟨?_, ?_⟩
    · rw [Tree.find?_of_locate hl, find?_scriptPath]
    · rw [Tree.find?_of_locate hl', find?_scriptPath]
  · exact .inl (Tree.find?_put_of_ne hfill fun h => hplace (Except.ok.inj (hl'.symm.trans h)))

def plainRequest (environment : Environment) : DeployRequest :=
  ⟨environment, false, [], none, []⟩

theorem made_plain {made : List String} :
    Made files (plainRequest environment) substitution made ↔
      ∃ paths, Inputs files [] paths ∧
        List.Forall₂ (StatementAt files .empty substitution) paths made := by
  constructor
  · rintro ⟨hinputs, hinlined, hheld, hmade⟩
    cases hinlined
    cases hheld
    exact ⟨_, hinputs, hmade⟩
  · rintro ⟨paths, hinputs, hmade⟩
    exact .mk hinputs .nil rfl hmade

-- ---------------------------------------------------------------------------
-- Two scripts
-- ---------------------------------------------------------------------------

variable {made made' : List String}

theorem rightUnique_statementAt {held : Dependencies} :
    Relator.RightUnique (StatementAt files held substitution) := by
  intro path statement statement' h h'
  exact h.unique h'

theorem statementAt_put_of_none (h : files.entry? (scriptPlace environment) = none)
    (hfile : files.isFile path = true) :
    StatementAt (files.put (scriptPlace environment) content) .empty substitution path statement ↔
      StatementAt files .empty substitution path statement := by
  have hfill : files.Fillable (scriptPlace environment) := by simp [Tree.Fillable, h]
  rcases find?_put_script hfill hfile content with hsame | ⟨hscript, -⟩
  · exact statementAt_congr hsame
  · obtain ⟨bytes, hfound⟩ := Tree.isFile_iff.1 hfile
    rw [hscript, find?_scriptPath, h] at hfound
    cases hfound

/-- Where there was no script, it adds a statement to the next one. -/
theorem rerun_of_no_script (h : files.entry? (scriptPlace environment) = none)
    (hmade : Made files (plainRequest environment) substitution made)
    (hagain : Made (files.put (scriptPlace environment) content) (plainRequest environment)
      substitution made') :
    (script made).toList.length < (script made').toList.length := by
  obtain ⟨paths, hinputs, hmade⟩ := made_plain.1 hmade
  obtain ⟨paths', hinputs', hagain⟩ := made_plain.1 hagain
  have hperm := discovered_put_of_none h (hinputs.found rfl) (hinputs'.found rfl)
  -- The directory is sorted, so the script's statement stands anywhere among the others.
  obtain ⟨all, hall, hperm⟩ := List.perm_comp_forall₂ hperm hagain
  cases hall with
  | @cons _ last _ others _ hothers =>
    have hothers : List.Forall₂ (StatementAt files .empty substitution) paths others :=
      forall₂_imp_of_mem hothers fun path hpath statement =>
        (statementAt_put_of_none h (hinputs.areFiles path hpath)).1
    obtain rfl : others = made := rightUnique_statementAt.forall₂ hothers hmade
    have hlength := (hperm.flatMap_right fun s => scriptEntry s.toList).length_eq
    rw [toList_script, toList_script, ← hlength, List.flatMap_cons, List.length_append]
    have hentry : 0 < (scriptEntry last.toList).length := by simp [scriptEntry]
    omega

/-- A path either has the statement that it had, or those that the script's path had and has. -/
theorem statementAt_put (hfill : files.Fillable (scriptPlace environment))
    (hfile : files.isFile path = true) (content : Bytes) (substitution : Substitution) :
    (∀ statement, StatementAt (files.put (scriptPlace environment) content) .empty substitution
        path statement ↔ StatementAt files .empty substitution path statement) ∨
      (∀ statement, StatementAt files .empty substitution path statement ↔
        StatementAt files .empty substitution (scriptPath environment) statement) ∧
      ∀ statement, StatementAt (files.put (scriptPlace environment) content) .empty substitution
        path statement ↔ StatementAt (files.put (scriptPlace environment) content) .empty
          substitution (scriptPath environment) statement := by
  rcases find?_put_script hfill hfile content with hsame | ⟨hold, hnew⟩
  · exact .inl fun statement => statementAt_congr hsame
  · exact .inr ⟨fun statement => statementAt_congr hold, fun statement => statementAt_congr hnew⟩

theorem scriptEntry_inj {a b : List Char} :
    scriptEntry a = scriptEntry b ↔ terminated a = terminated b :=
  List.append_left_inj _

/-- Where there was a script, the two scripts differ at its statements alone. -/
theorem script_eq_iff (hfill : files.Fillable (scriptPlace environment))
    (hfiles : ∀ path ∈ paths, files.isFile path = true)
    (hmem : scriptPath environment ∈ paths)
    (hmade : List.Forall₂ (StatementAt files .empty substitution) paths made)
    (hagain : List.Forall₂ (StatementAt (files.put (scriptPlace environment) content) .empty
      substitution) paths made') :
    ∃ a b, StatementAt files .empty substitution (scriptPath environment) a ∧
      StatementAt (files.put (scriptPlace environment) content) .empty substitution
        (scriptPath environment) b ∧
      (script made = script made' ↔ terminated a.toList = terminated b.toList) := by
  obtain ⟨pairs, rfl, rfl, hfrom, hto⟩ := exists_pairs hmade hagain
  obtain ⟨⟨a, b⟩, hpair, ha, hb⟩ := hto _ hmem
  refine ⟨a, b, ha, hb, ?_⟩
  have hpairs : ∀ pair ∈ pairs, pair.1 = pair.2 ∨ pair.1 = a ∧ pair.2 = b := by
    intro pair hp
    obtain ⟨path, hpath, hold, hnew⟩ := hfrom pair hp
    rcases statementAt_put hfill (hfiles path hpath) content substitution with hsame | ⟨hsa, hsb⟩
    · exact .inl (hold.unique ((hsame _).1 hnew))
    · exact .inr ⟨((hsa _).1 hold).unique ha, ((hsb _).1 hnew).unique hb⟩
  rw [← String.toList_inj, toList_script, toList_script, List.flatMap_map, List.flatMap_map,
    ← scriptEntry_inj]
  refine flatMap_eq_iff (fun pair hp => ?_) ⟨_, hpair, rfl, rfl⟩
  rcases hpairs pair hp with hsame | ⟨hsa, hsb⟩
  · exact .inl (by rw [hsame])
  · exact .inr ⟨by rw [hsa], by rw [hsb]⟩

theorem Inputs.put_of_file (h : files.entry? (scriptPlace environment) = some (.file old))
    (hinputs : Inputs files [] paths) :
    Inputs (files.put (scriptPlace environment) content) [] paths where
  found _ := (discovered_put_of_file h).2 (hinputs.found rfl)
  given hne := absurd rfl hne
  nonempty := hinputs.nonempty
  areFiles path hpath := by
    have hfill : files.Fillable (scriptPlace environment) := by simp [Tree.Fillable, h]
    have hfile := hinputs.areFiles path hpath
    rcases find?_put_script hfill hfile content with hsame | ⟨-, hscript⟩
    · rw [Tree.isFile, hsame]
      exact hfile
    · rw [Tree.isFile, hscript, find?_scriptPath, Tree.found_put_self hfill]

/-- Where there was a script, the next one is the same if both are read as the same statement. -/
theorem rerun_of_script (h : files.entry? (scriptPlace environment) = some (.file old))
    (hmade : Made files (plainRequest environment) substitution made) :
    (∃ made', Made (files.put (scriptPlace environment) content) (plainRequest environment)
        substitution made' ∧ script made = script made') ↔
      ∃ a b, StatementAt files .empty substitution (scriptPath environment) a ∧
        StatementAt (files.put (scriptPlace environment) content) .empty substitution
          (scriptPath environment) b ∧ terminated a.toList = terminated b.toList := by
  have hfill : files.Fillable (scriptPlace environment) := by simp [Tree.Fillable, h]
  obtain ⟨paths, hinputs, hmade⟩ := made_plain.1 hmade
  have hmem := mem_discovered h (hinputs.found rfl)
  constructor
  · rintro ⟨made', hagain, hsame⟩
    obtain ⟨paths', hinputs', hagain⟩ := made_plain.1 hagain
    obtain rfl := (hinputs.found rfl).unique ((discovered_put_of_file h).1 (hinputs'.found rfl))
    obtain ⟨a, b, ha, hb, hiff⟩ := script_eq_iff hfill hinputs.areFiles hmem hmade hagain
    exact ⟨a, b, ha, hb, hiff.1 hsame⟩
  · rintro ⟨a, b, ha, hb, hsame⟩
    have hstatements : ∀ path ∈ paths, ∃ statement,
        StatementAt (files.put (scriptPlace environment) content) .empty substitution path
          statement := by
      intro path hpath
      rcases statementAt_put hfill (hinputs.areFiles path hpath) content substitution with
        hold | ⟨-, hnew⟩
      · obtain ⟨pairs, -, -, -, hto⟩ := exists_pairs hmade hmade
        obtain ⟨pair, -, hp, -⟩ := hto path hpath
        exact ⟨pair.1, (hold _).2 hp⟩
      · exact ⟨b, (hnew b).2 hb⟩
    obtain ⟨made', hagain⟩ := exists_forall₂ hstatements
    obtain ⟨a', b', ha', hb', hiff⟩ := script_eq_iff hfill hinputs.areFiles hmem hmade hagain
    obtain rfl := ha.unique ha'
    obtain rfl := hb.unique hb'
    exact ⟨made', made_plain.2 ⟨paths, hinputs.put_of_file h, hagain⟩, hiff.2 hsame⟩

end ViewRollout.Command
