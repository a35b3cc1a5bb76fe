import ViewRollout.Command.Run
import ViewRollout.Proofs.Command.Statements
import ViewRollout.Proofs.Files.Writing

/-!
# The configuration of a run

Which configuration a run has, in terms of the world alone: the file that it
is read from is the one asked for, the one that a variable names, or the
default one, and the secrets beside it lie over it. Nothing but messages
changes while it is had (`quiet_configuration`).
-/

namespace ViewRollout.Command

open Files (Quiet Still Tree World)
open Files.Variables (Assignment Piece)

variable {world other : World} {files : Tree} {config : Config} {path : String}
variable {asked named : Option String} {verbose : Bool} {invocation : Invocation}

-- ---------------------------------------------------------------------------
-- Variables
-- ---------------------------------------------------------------------------

theorem still_textOfPieces (assigned : Table String String) (pieces : List Piece) :
    Still (Files.Variables.textOfPieces assigned pieces) := by
  induction pieces with
  | nil => exact .pure []
  | cons piece pieces ih =>
    cases piece with
    | char c => exact .bind ih fun _ => .pure _
    | value name => exact .bind (fun _ => rfl) fun _ => .bind ih fun _ => .pure _

theorem still_assign (assigned : Table String String) (assignments : List Assignment) :
    Still (Files.Variables.assign assigned assignments) := by
  induction assignments generalizing assigned with
  | nil => exact .pure assigned
  | cons assignment assignments ih =>
    exact .bind (still_textOfPieces assigned assignment.value) fun _ =>
      .bind (fun _ => rfl) fun _ => ih _

theorem still_load (paths : List String) : Still (Files.Variables.load paths) := by
  induction paths with
  | nil => exact .pure []
  | cons path paths ih =>
    refine .bind (fun _ => rfl) fun isFile => ?_
    split
    · refine .bind (fun _ => rfl) fun content => ?_
      cases content with
      | ok content => exact still_assign [] _
      | error fault => exact .pure []
    · exact ih

theorem still_valueOf (paths : List String) (name : String) :
    Still (Files.Variables.valueOf? paths name) := by
  refine .bind (fun _ => rfl) fun value => ?_
  cases value with
  | some value => exact .pure (some value)
  | none => exact .bind (still_load paths) fun _ => .pure _

/-! What variables say depends on the environment and on what their files are. -/

theorem textOfPieces_congr (h : other.environment = world.environment)
    (assigned : Table String String) (pieces : List Piece) :
    (other.ask (Files.Variables.textOfPieces assigned pieces)).1 =
      (world.ask (Files.Variables.textOfPieces assigned pieces)).1 := by
  induction pieces with
  | nil => rfl
  | cons piece pieces ih =>
    cases piece with
    | char c => exact congrArg (c :: ·) ih
    | value name =>
      simp only [Files.Variables.textOfPieces, Files.ask_bind, Files.ask_value, ih, h,
        Files.ask_pure]

theorem assign_congr (h : other.environment = world.environment)
    (assigned : Table String String) (assignments : List Assignment) :
    (other.ask (Files.Variables.assign assigned assignments)).1 =
      (world.ask (Files.Variables.assign assigned assignments)).1 := by
  induction assignments generalizing assigned with
  | nil => rfl
  | cons assignment assignments ih =>
    unfold Files.Variables.assign
    rw [Files.ask_bind, still_textOfPieces, Files.ask_bind, Files.ask_value,
      textOfPieces_congr h, h, Files.ask_bind, still_textOfPieces, Files.ask_bind, Files.ask_value]
    exact ih _

theorem load_congr (h : other.environment = world.environment) {paths : List String}
    (hpaths : ∀ path ∈ paths, other.files.find? path = world.files.find? path) :
    (other.ask (Files.Variables.load paths)).1 = (world.ask (Files.Variables.load paths)).1 := by
  induction paths with
  | nil => rfl
  | cons path paths ih =>
    obtain ⟨hpath, hpaths⟩ := List.forall_mem_cons.1 hpaths
    have hfile : other.files.isFile path = world.files.isFile path := by
      rw [Tree.isFile, Tree.isFile, hpath]
    unfold Files.Variables.load
    rw [Files.ask_bind, Files.ask_bind, Files.ask_isFile, Files.ask_isFile, hfile]
    dsimp only
    split
    · rename_i hf
      obtain ⟨content, hf⟩ := Tree.isFile_iff.1 hf
      have hold : world.files.readBytes path = .ok content := Tree.readBytes_ok.2 hf
      have hnew : other.files.readBytes path = .ok content := Tree.readBytes_ok.2 (hpath.trans hf)
      rw [Files.ask_bind, Files.ask_bind, Files.ask_readBytes, Files.ask_readBytes, hold, hnew]
      exact assign_congr h [] _
    · exact ih hpaths

theorem valueOf_congr (h : other.environment = world.environment) {paths : List String}
    (hpaths : ∀ path ∈ paths, other.files.find? path = world.files.find? path) (name : String) :
    (other.ask (Files.Variables.valueOf? paths name)).1 =
      (world.ask (Files.Variables.valueOf? paths name)).1 := by
  unfold Files.Variables.valueOf?
  rw [Files.ask_bind, Files.ask_value, Files.ask_bind, Files.ask_value, h]
  cases Files.valueUnder? name world.environment with
  | some value => rfl
  | none =>
    dsimp only
    rw [Files.ask_bind, Files.ask_bind, load_congr h hpaths]
    rfl

theorem names_variableFile (n : Nat) :
    Files.Path.names (String.join (List.replicate n "../") ++ ".env") =
      List.replicate n ".." ++ [".env"] := by
  induction n with
  | zero => decide
  | succ n ih =>
    rw [List.replicate_succ, List.replicate_succ, String.join_cons, String.append_assoc]
    simpa [Files.Path.names, Files.Path.namesFrom] using ih

theorem ask_load_of_no_file {paths : List String}
    (h : ∀ path ∈ paths, world.files.isFile path = false) :
    world.ask (Files.Variables.load paths) = ([], world) := by
  induction paths with
  | nil => rfl
  | cons path paths ih =>
    obtain ⟨hpath, hpaths⟩ := List.forall_mem_cons.1 h
    unfold Files.Variables.load
    rw [Files.ask_bind, Files.ask_isFile, hpath]
    exact ih hpaths

/-- Where nothing is called as a file of variables is, the environment alone has variables. -/
theorem ask_valueOf (name : String)
    (h : ∀ entry ∈ world.files.entries, entry.1.getLast? ≠ some ".env") :
    world.ask (Files.Variables.valueOf? variableFiles name) =
      (Files.valueUnder? name world.environment, world) := by
  have hload : world.ask (Files.Variables.load variableFiles) = ([], world) := by
    refine ask_load_of_no_file fun path hpath => ?_
    obtain ⟨n, -, rfl⟩ := List.mem_map.1 hpath
    have hnone := Tree.find?_eq_none_of_names (by decide) (by decide) (names_variableFile n) h
    rw [Tree.isFile, hnone]
  unfold Files.Variables.valueOf?
  rw [Files.ask_bind, Files.ask_value]
  cases Files.valueUnder? name world.environment with
  | some value => rfl
  | none =>
    dsimp only
    rw [Files.ask_bind, hload]
    rfl

-- ---------------------------------------------------------------------------
-- One configuration
-- ---------------------------------------------------------------------------

def secretsBeside (path : String) : String :=
  Files.Path.join ((Files.Path.parent? path).getD "") secretsFile

/-- The configuration with the file at the path over it, if anything is there. -/
def Overlaid (files : Tree) (path : String) (config result : Config) : Prop :=
  (files.exists? path = false → result = config) ∧
    (files.exists? path = true → ∃ text,
      files.HoldsText path text ∧ config.withText text = .ok result)

/-- The configuration at the path: that of the file, with the secrets over it where there are
any. -/
def LoadedFrom (files : Tree) (path : String) (config : Config) : Prop :=
  ∃ text base, files.HoldsText path text ∧ Config.parse text = .ok base ∧
    Overlaid files (secretsBeside path) { base with home := Files.Path.parent? path } config

/-- The path that the configuration is read from, if it is read. -/
def configPathIn (files : Tree) (asked named : Option String) : Option String :=
  (asked.or named).or (if files.exists? configFile then some configFile else none)

def ConfiguredBy (files : Tree) (asked named : Option String) (config : Config) : Prop :=
  (configPathIn files asked named = none → config = .default) ∧
    ∀ path, configPathIn files asked named = some path → LoadedFrom files path config

theorem quiet_configPath (asked named : Option String) : Quiet (configPath asked named) := by
  unfold configPath
  split
  · exact .pure _
  · exact .bind (.lift fun _ => rfl) fun _ => .pure _

theorem configPath_ok {path : Option String} :
    (world.run (configPath asked named)).1 = .ok path ↔
      configPathIn world.files asked named = path := by
  unfold configPath configPathIn
  cases asked.or named with
  | some given => simp
  | none =>
    show Except.ok (if world.files.exists? configFile then _ else _) = Except.ok path ↔ _
    rw [Except.ok.injEq, Option.none_or]

theorem quiet_loadFile (path : String) : Quiet (Config.loadFile path) :=
  .bind (.attempt fun _ => rfl) fun text => .bind (.given (Config.parse text)) fun _ => .pure _

theorem loadFile_ok :
    (world.run (Config.loadFile path)).1 = .ok config ↔
      ∃ text base, world.files.HoldsText path text ∧ Config.parse text = .ok base ∧
        config = { base with home := Files.Path.parent? path } := by
  unfold Config.loadFile
  rw [Quiet.bind_ok (P := fun text => ∃ base, Config.parse text = .ok base ∧
    config = { base with home := Files.Path.parent? path }) (.attempt fun _ => rfl)]
  · simp only [Files.run_readText_ok, exists_and_left]
  · intro text messages
    rw [Files.run_bind, Files.run_given]
    cases Config.parse text <;> simp [eq_comm]

theorem quiet_loadOver (config : Config) (path : String) :
    Quiet (Config.loadOver config [path]) := by
  refine .bind (.lift fun _ => rfl) fun isThere => ?_
  split
  · exact .bind (.attempt fun _ => rfl) fun text =>
      .bind (.given (config.withText text)) fun _ => .pure _
  · exact .pure config

theorem loadOver_ok {result : Config} :
    (world.run (Config.loadOver config [path])).1 = .ok result ↔
      Overlaid world.files path config result := by
  unfold Config.loadOver Overlaid
  rw [Files.run_bind, Files.run_lift, Files.ask_isThere]
  cases world.files.exists? path with
  | false => simp [Config.loadOver, eq_comm]
  | true =>
    dsimp only
    rw [if_pos rfl, Quiet.bind_ok (P := fun text => config.withText text = .ok result)
      (.attempt fun _ => rfl)]
    · simp [Files.run_readText_ok]
    · intro text messages
      rw [Files.run_bind, Files.run_given]
      cases config.withText text <;> simp [Config.loadOver]

theorem quiet_load (path secrets : String) : Quiet (Config.load [path, secrets]) :=
  .bind (quiet_loadFile path) fun config => quiet_loadOver config secrets

theorem load_ok :
    (world.run (Config.load [path, secretsBeside path])).1 = .ok config ↔
      LoadedFrom world.files path config := by
  unfold Config.load
  rw [Quiet.bind_ok (P := fun first => Overlaid world.files (secretsBeside path) first config)
    (quiet_loadFile path) fun _ _ => loadOver_ok]
  simp only [loadFile_ok, LoadedFrom]
  constructor
  · rintro ⟨_, ⟨text, base, htext, hbase, rfl⟩, hover⟩
    exact ⟨text, base, htext, hbase, hover⟩
  · rintro ⟨text, base, htext, hbase, hover⟩
    exact ⟨_, ⟨text, base, htext, hbase, rfl⟩, hover⟩

theorem quiet_configuration (asked named : Option String) (verbose : Bool) :
    Quiet (configuration asked named verbose) := by
  refine .bind (quiet_configPath asked named) fun path => ?_
  cases path with
  | none => exact .bind (quiet_note _ _) fun _ => .pure _
  | some path =>
    exact .bind (.adapt (quiet_load path _)) fun _ => .bind (quiet_note _ _) fun _ => .pure _

theorem configuration_ok :
    (world.run (configuration asked named verbose)).1 = .ok config ↔
      ConfiguredBy world.files asked named config := by
  unfold configuration
  rw [Quiet.bind_ok (P := fun path => (path = none → config = .default) ∧
    ∀ file, path = some file → LoadedFrom world.files file config) (quiet_configPath asked named)]
  · simp only [configPath_ok, exists_eq_left', ConfiguredBy]
  · intro path messages
    cases path with
    | none =>
      dsimp only
      rw [Quiet.bind_ok (P := fun _ => config = .default) (quiet_note _ _) fun _ _ => by
        simp [eq_comm]]
      simp [run_note]
    | some path =>
      dsimp only
      rw [Quiet.bind_ok (P := fun loaded => loaded = config) (.adapt (quiet_load path _))]
      · simp only [exists_eq_right, Files.adapt_ok, Option.some.injEq, forall_eq', reduceCtorEq,
          false_implies, true_and]
        exact load_ok
      · intro loaded messages
        rw [Quiet.bind_ok (P := fun _ => loaded = config) (quiet_note _ _) fun _ _ => by simp]
        simp [run_note]

-- ---------------------------------------------------------------------------
-- After a file was written
-- ---------------------------------------------------------------------------

section Apart

variable {place : Files.Place} {content : Bytes}

/-- A file at the place is none that a configuration is looked for in. -/
structure Apart (place : Files.Place) : Prop where
  config : place.getLast? ≠ some configFile
  secrets : place.getLast? ≠ some secretsFile
  variableFile : place.getLast? ≠ some ".env"

theorem find?_put_of_name {front : List String} {name : String} (hfill : files.Fillable place)
    (hn : Tree.IsProper name) (hnames : Files.Path.names path = front ++ [name])
    (hlast : place.getLast? ≠ some name) :
    (files.put place content).find? path = files.find? path :=
  Tree.find?_put_of_ne hfill (Tree.locate_ne_of_names hn hnames hlast)

theorem LoadedFrom.put (hfill : files.Fillable place) (hapart : Apart place)
    (hpath : files.locate path ≠ .ok place) (h : LoadedFrom files path config) :
    LoadedFrom (files.put place content) path config := by
  obtain ⟨text, base, htext, hbase, hover⟩ := h
  have hconfig : (files.put place content).find? path = files.find? path := by
    obtain ⟨bytes, hread, -⟩ := htext
    obtain ⟨found, hl, -⟩ := Tree.find?_eq_some_iff.1 (Tree.readBytes_ok.1 hread)
    have hl' : (files.put place content).locate path = .ok found := Tree.locate_put_of_ok hfill hl
    exact Tree.find?_put_of_ne hfill (by rwa [hl', ← hl])
  have hsecrets : (files.put place content).find? (secretsBeside path) =
      files.find? (secretsBeside path) := by
    obtain ⟨front, hnames⟩ := Tree.names_join ((Files.Path.parent? path).getD "")
      (show Files.Path.names secretsFile = [secretsFile] by decide)
    exact find?_put_of_name hfill (by decide) hnames hapart.secrets
  refine ⟨text, base, (Files.holdsText_congr hconfig).2 htext, hbase, ?_⟩
  unfold Overlaid Tree.exists? at hover ⊢
  simpa only [hsecrets, Files.holdsText_congr hsecrets] using hover

theorem configPathIn_put (hfill : files.Fillable place) (hapart : Apart place) :
    configPathIn (files.put place content) asked named = configPathIn files asked named := by
  have hfound : (files.put place content).find? configFile = files.find? configFile :=
    find?_put_of_name hfill (by decide)
      (show Files.Path.names configFile = [] ++ [configFile] by decide) hapart.config
  rw [configPathIn, configPathIn, Tree.exists?, Tree.exists?, hfound]

theorem ConfiguredBy.put (hfill : files.Fillable place) (hapart : Apart place)
    (hpath : ∀ path, configPathIn files asked named = some path → files.locate path ≠ .ok place)
    (h : ConfiguredBy files asked named config) :
    ConfiguredBy (files.put place content) asked named config := by
  unfold ConfiguredBy
  rw [configPathIn_put hfill hapart]
  exact ⟨h.1, fun path hp => (h.2 path hp).put hfill hapart (hpath path hp)⟩

end Apart

end ViewRollout.Command
