import ViewRollout.Proofs.Command.Deployment
import ViewRollout.Proofs.Command.ScriptAmongViews

/-!
# Deploying again

A second run takes the script of the first one for a view.
`deploying_again_iff` says when that changes nothing: only where the script was
there before the first run, so that both runs read one file at its path, and
both make the same statement of what they read.
-/

namespace ViewRollout.Command

open Config (Environment Settings)
open Files (Quiet Tree World)

variable {world : World} {files : Tree} {environment : Environment} {content : Bytes}
variable {path : String} {made : List String}

-- ---------------------------------------------------------------------------
-- A run that an environment alone is named for
-- ---------------------------------------------------------------------------

variable {arguments : List String} {invocation : Invocation} {config : Config}
variable {settings : Settings} {names : List (String × String)}

/-- A configuration that asks nobody about the environment. -/
structure Unasked (world : World) (invocation : Invocation) (environment : Environment)
    (config : Config) (settings : Settings) : Prop where
  configured : Configured world invocation config
  found : Table.get? environment.name config.environments = some settings
  unchecked : settings.check = false

theorem Configured.unique {config' : Config} (h : Configured world invocation config)
    (h' : Configured world invocation config') : config = config' := by
  have hrun (config : Config) (h : Configured world invocation config) :
      (world.run (configuration invocation.config _ false)).1 = .ok config := configuration_ok.2 h
  exact Except.ok.inj ((hrun config h).symm.trans (hrun config' h'))

theorem gathered_plain (h : Unasked world invocation environment config settings)
    {settings' : Settings} :
    Gathered world invocation (plainRequest environment) settings' made ↔
      settings' = settings ∧ ∃ names, Mapped settings config.schemas names ∧
        Made world.files (plainRequest environment) (.ofNames names) made := by
  constructor
  · rintro ⟨hconfig, hsettings, hnames, hmade⟩
    obtain rfl := hconfig.unique h.configured
    obtain rfl := Option.some.inj (hsettings.symm.trans h.found)
    exact ⟨rfl, _, hnames, hmade⟩
  · rintro ⟨rfl, names, hnames, hmade⟩
    exact .mk h.configured h.found hnames hmade

theorem run_writeScript (hroom : world.output.room = none)
    (hwrite : world.files.write path (Text.bytes (script made)) = .ok files) :
    ∃ text, world.run (writeScript path made) =
      (.ok (), World.printed { world with files := files } text) := by
  have hprint (text : String) := Files.ask_print
    (show ({ world with files := files } : World).output.room = none from hroom) text
  rw [writeScript, Files.run_bind, Files.run_attempt, Files.ask_writeBytes, World.writeBytes,
    hwrite]
  dsimp only
  rw [say, Files.run_attempt, hprint]
  exact ⟨_, rfl⟩

theorem exists_write (h : (world.run (writeScript path made)).1 = .ok ()) :
    ∃ files, world.files.write path (Text.bytes (script made)) = .ok files := by
  rw [writeScript, Files.run_bind, Files.run_attempt, Files.ask_writeBytes,
    World.writeBytes] at h
  cases hwrite : world.files.write path (Text.bytes (script made)) with
  | ok files => exact ⟨files, rfl⟩
  | error fault =>
    rw [hwrite] at h
    cases h

theorem putOut_unchecked (h : settings.check = false) :
    putOut (plainRequest environment) settings made =
      writeScript (defaultOutput environment) made := by
  rw [putOut, consent, h]
  rfl

theorem run_plain (hparse : Invocation.parse arguments = .ok invocation)
    (hdeploy : invocation.request = .deploy (plainRequest environment))
    (hroom : world.output.room = none)
    (h : Unasked world invocation environment config settings)
    (hnames : Mapped settings config.schemas names)
    (hmade : Made world.files (plainRequest environment) (.ofNames names) made)
    (hfill : world.files.Fillable (scriptPlace environment)) :
    ∃ next, world.ask (run arguments) = (0, next) ∧
      next.files = world.files.put (scriptPlace environment) (Text.bytes (script made)) ∧
      next.environment = world.environment ∧ next.output.room = none := by
  have hgathered := gathered_ok.2 ((gathered_plain h).2 ⟨rfl, names, hnames, hmade⟩)
  obtain ⟨messages, hw⟩ :=
    Quiet.exists_told (quiet_gathered invocation (plainRequest environment)) world
  have hgathered : world.run (gathered invocation (plainRequest environment)) =
      (.ok (settings, made), world.told messages) := Prod.ext hgathered hw
  let files := world.files.put (scriptPlace environment) (Text.bytes (script made))
  have hwrite : (world.told messages).files.write (defaultOutput environment)
      (Text.bytes (script made)) = .ok files := write_defaultOutput.2 ⟨hfill, rfl⟩
  have hroom : (world.told messages).output.room = none := hroom
  obtain ⟨text, hwritten⟩ := run_writeScript hroom hwrite
  refine ⟨({ world.told messages with files := files } : World).printed text, ?_, rfl, rfl,
    Files.room_printed hroom text⟩
  rw [ask_run hparse, perform_deploy hdeploy, Files.run_bind, hgathered]
  dsimp only
  rw [putOut_unchecked h.unchecked, hwritten]

theorem run_plain_ok (hparse : Invocation.parse arguments = .ok invocation)
    (hdeploy : invocation.request = .deploy (plainRequest environment))
    (h : Unasked world invocation environment config settings)
    (hzero : (world.ask (run arguments)).1 = 0) :
    ∃ names made, Mapped settings config.schemas names ∧
      Made world.files (plainRequest environment) (.ofNames names) made ∧
      world.files.Fillable (scriptPlace environment) := by
  have hok : (world.run (perform invocation)).1 = .ok () := by
    rw [ask_run hparse] at hzero
    rcases hrun : world.run (perform invocation) with ⟨_ | _, next⟩
    · rw [hrun] at hzero
      cases hzero
    · rfl
  have hrun : world.run (perform invocation) = (.ok (), (world.run (perform invocation)).2) :=
    Prod.ext hok rfl
  rw [perform_deploy hdeploy, Files.bind_ok] at hrun
  obtain ⟨⟨found, made⟩, next, hgathered, hput⟩ := hrun
  have hnext := quiet_gathered invocation (plainRequest environment) world
  rw [hgathered] at hnext
  have hmade := gathered_ok.1 (congrArg Prod.fst hgathered)
  obtain ⟨rfl, names, hnames, hmade⟩ := (gathered_plain h).1 hmade
  dsimp only at hput
  rw [putOut_unchecked h.unchecked] at hput
  obtain ⟨files, hwrite⟩ := exists_write (congrArg Prod.fst hput)
  have hnext : next.told "" = world.told "" := hnext
  have hfiles : next.files = world.files := by simpa using congrArg World.files hnext
  exact ⟨names, made, hnames, hmade, (write_defaultOutput.1 (hfiles ▸ hwrite)).1⟩

-- ---------------------------------------------------------------------------
-- Two runs
-- ---------------------------------------------------------------------------

def configPathOf (world : World) (invocation : Invocation) : Option String :=
  configPathIn world.files invocation.config
    (world.ask (Files.Variables.valueOf? variableFiles configVariable)).1

/-- A run after another one has the same configuration, unless that is read from the script. -/
theorem Unasked.again {next : World} (h : Unasked world invocation environment config settings)
    (hfill : world.files.Fillable (scriptPlace environment))
    (hpath : ∀ path, configPathOf world invocation = some path →
      world.files.locate path ≠ .ok (scriptPlace environment))
    (hfiles : next.files = world.files.put (scriptPlace environment) content)
    (henv : next.environment = world.environment) :
    Unasked next invocation environment config settings := by
  have hapart := apart_scriptPlace environment
  have hvalue : (next.ask (Files.Variables.valueOf? variableFiles configVariable)).1 =
      (world.ask (Files.Variables.valueOf? variableFiles configVariable)).1 := by
    refine valueOf_congr henv (fun path hpath => ?_) configVariable
    obtain ⟨n, -, rfl⟩ := List.mem_map.1 hpath
    rw [hfiles]
    exact find?_put_of_name hfill (by decide) (names_variableFile n) hapart.variableFile
  refine ⟨?_, h.found, h.unchecked⟩
  rw [Configured, hvalue, hfiles]
  exact ConfiguredBy.put hfill hapart hpath h.configured

theorem Mapped.unique {placeholders : List String} {names' : List (String × String)}
    (h : Mapped settings placeholders names) (h' : Mapped settings placeholders names') :
    names = names' := by
  have hrun (names : List (String × String)) (h : Mapped settings placeholders names) :
      Config.namesIn .uat settings placeholders = .ok names := namesIn_ok.2 h
  exact Except.ok.inj ((hrun names h).symm.trans (hrun names' h'))

theorem readBytes_put (hfill : files.Fillable (scriptPlace environment)) (content : Bytes) :
    (files.put (scriptPlace environment) content).readBytes (defaultOutput environment) =
      .ok content :=
  (Tree.write_frame (write_defaultOutput.2 ⟨hfill, rfl⟩)).1

/-- A run in a directory with a script leaves it as it is when it succeeds in making the same. -/
theorem run_keeps_iff (hparse : Invocation.parse arguments = .ok invocation)
    (hdeploy : invocation.request = .deploy (plainRequest environment))
    (hroom : world.output.room = none)
    (h : Unasked world invocation environment config settings)
    (hnames : Mapped settings config.schemas names)
    (hfill : world.files.Fillable (scriptPlace environment))
    (hread : world.files.readBytes (defaultOutput environment) =
      .ok (Text.bytes (script made))) :
    (world.ask (run arguments)).1 = 0 ∧
        (world.ask (run arguments)).2.files.readBytes (defaultOutput environment) =
          world.files.readBytes (defaultOutput environment) ↔
      ∃ made', Made world.files (plainRequest environment) (.ofNames names) made' ∧
        script made = script made' := by
  have hafter (made' : List String)
      (hmade : Made world.files (plainRequest environment) (.ofNames names) made') :
      (world.ask (run arguments)).1 = 0 ∧
        (world.ask (run arguments)).2.files.readBytes (defaultOutput environment) =
          .ok (Text.bytes (script made')) := by
    obtain ⟨next, hnext, hfiles, -⟩ := run_plain hparse hdeploy hroom h hnames hmade hfill
    rw [hnext, hfiles, readBytes_put hfill]
    exact ⟨rfl, rfl⟩
  rw [hread]
  constructor
  · rintro ⟨hzero, hsame⟩
    obtain ⟨names', made', hnames', hmade, -⟩ := run_plain_ok hparse hdeploy h hzero
    obtain rfl := hnames.unique hnames'
    rw [(hafter made' hmade).2, Except.ok.injEq, Text.bytes_inj] at hsame
    exact ⟨made', hmade, hsame.symm⟩
  · rintro ⟨made', hmade, hsame⟩
    rw [hsame]
    exact hafter made' hmade

/-- After a first run the second one leaves the script as it is when it succeeds in making the
same. -/
theorem exists_first (hparse : Invocation.parse arguments = .ok invocation)
    (hdeploy : invocation.request = .deploy (plainRequest environment))
    (hroom : world.output.room = none)
    (h : Unasked world invocation environment config settings)
    (hpath : ∀ path, configPathOf world invocation = some path →
      world.files.locate path ≠ .ok (scriptPlace environment))
    (hfirst : (world.ask (run arguments)).1 = 0) :
    let first := (world.ask (run arguments)).2
    let second := first.ask (run arguments)
    ∃ names made, Mapped settings config.schemas names ∧
      Made world.files (plainRequest environment) (.ofNames names) made ∧
      world.files.Fillable (scriptPlace environment) ∧
      first.files = world.files.put (scriptPlace environment) (Text.bytes (script made)) ∧
      (second.1 = 0 ∧ second.2.files.readBytes (defaultOutput environment) =
          first.files.readBytes (defaultOutput environment) ↔
        ∃ made', Made first.files (plainRequest environment) (.ofNames names) made' ∧
          script made = script made') := by
  intro first second
  obtain ⟨names, made, hnames, hmade, hfill⟩ := run_plain_ok hparse hdeploy h hfirst
  obtain ⟨next, hnext, hfiles, henv, hroom⟩ :=
    run_plain hparse hdeploy hroom h hnames hmade hfill
  obtain rfl : first = next := congrArg Prod.snd hnext
  have hfill' : first.files.Fillable (scriptPlace environment) := by
    simp [Tree.Fillable, hfiles, Tree.found_put_self hfill]
  have hread := readBytes_put hfill (Text.bytes (script made))
  rw [← hfiles] at hread
  exact ⟨names, made, hnames, hmade, hfill, hfiles,
    run_keeps_iff hparse hdeploy hroom (h.again hfill hpath hfiles henv) hnames hfill' hread⟩

/-- The script of a first run is an input of the second one. The second run succeeds and leaves the
script as it is exactly when there was a script before the first run and the statements made of
the old and of the new one end up the same. -/
theorem deploying_again_iff (hparse : Invocation.parse arguments = .ok invocation)
    (hdeploy : invocation.request = .deploy (plainRequest environment))
    (hroom : world.output.room = none)
    (h : Unasked world invocation environment config settings)
    (hpath : ∀ path, configPathOf world invocation = some path →
      world.files.locate path ≠ .ok (scriptPlace environment))
    (hfirst : (world.ask (run arguments)).1 = 0) :
    let first := (world.ask (run arguments)).2
    let second := first.ask (run arguments)
    (∀ paths, Inputs first.files [] paths → scriptPath environment ∈ paths) ∧
    (second.1 = 0 ∧ second.2.files.readBytes (defaultOutput environment) =
        first.files.readBytes (defaultOutput environment) ↔
      ∃ names a b, Mapped settings config.schemas names ∧
        StatementAt world.files .empty (.ofNames names) (scriptPath environment) a ∧
        StatementAt first.files .empty (.ofNames names) (scriptPath environment) b ∧
        terminated a.toList = terminated b.toList) := by
  intro first second
  obtain ⟨names, made, hnames, hmade, hfill, hfiles, hiff⟩ :=
    exists_first hparse hdeploy hroom h hpath hfirst
  have hscript : first.files.entry? (scriptPlace environment) =
      some (.file (Text.bytes (script made))) := by
    rw [hfiles, Tree.found_put_self hfill]
  refine ⟨fun paths hinputs => mem_discovered hscript (hinputs.found rfl), ?_⟩
  rw [hiff, hfiles]
  cases hold : world.files.entry? (scriptPlace environment) with
  | none =>
    constructor
    · rintro ⟨made', hagain, hsame⟩
      exact absurd (hsame ▸ rerun_of_no_script hold hmade hagain) (Nat.lt_irrefl _)
    · rintro ⟨names, a, b, -, ⟨view, -, ⟨text, htext, -⟩, -⟩, -⟩
      obtain ⟨bytes, hbytes, -⟩ := htext
      rw [Tree.readBytes_ok, find?_scriptPath, hold] at hbytes
      cases hbytes
  | some entry =>
    cases entry with
    | directory => exact absurd hold hfill
    | file old =>
      rw [rerun_of_script hold hmade]
      constructor
      · rintro ⟨a, b, ha, hb, hsame⟩
        exact ⟨names, a, b, hnames, ha, hb, hsame⟩
      · rintro ⟨names', a, b, hnames', ha, hb, hsame⟩
        obtain rfl := hnames.unique hnames'
        exact ⟨a, b, ha, hb, hsame⟩

/-- A working directory with a configuration that asks nobody, and one SQL file. -/
def directoryOf (name text : String) : World where
  files := (Tree.empty.addFile "viewdeploy.toml"
    (Text.bytes "schemas = []\n[environments.uat]\ncheck = false\n")).addFile name (Text.bytes text)
  input := []
  output := .ofRoom none
  messages := ""
  environment := []

def freshDirectory : World :=
  directoryOf "a.sql" "CREATE VIEW a AS SELECT 1 FROM t"

/-- A directory with nothing but a script of one view. -/
def settledDirectory : World :=
  directoryOf "deploy-uat.sql" "CREATE VIEW a AS\nSELECT 1 FROM t;\n\n"

def uncheckedSettings : Settings :=
  { Settings.unset with check := false }

def plainInvocation : Invocation :=
  ⟨none, false, .deploy (plainRequest .uat)⟩

theorem parse_plainInvocation :
    Invocation.parse ["deploy", "--uat"] = .ok plainInvocation := by
  decide +kernel

theorem configPathOf_sample (h : world ∈ [freshDirectory, settledDirectory]) :
    configPathOf world plainInvocation = some "viewdeploy.toml" := by
  rcases List.mem_pair.1 h with rfl | rfl
  · rw [configPathOf, ask_valueOf _ (by decide +kernel)]
    decide +kernel
  · rw [configPathOf, ask_valueOf _ (by decide +kernel)]
    decide +kernel

theorem unasked_sample (h : world ∈ [freshDirectory, settledDirectory]) :
    Unasked world plainInvocation .uat ⟨[], [("uat", uncheckedSettings)], some ""⟩
      uncheckedSettings := by
  have hpath : configPathIn world.files none
      (world.ask (Files.Variables.valueOf? variableFiles configVariable)).1 =
    some "viewdeploy.toml" := configPathOf_sample h
  have hread : world.files.HoldsText "viewdeploy.toml"
      "schemas = []\n[environments.uat]\ncheck = false\n" := by
    refine ⟨Text.bytes "schemas = []\n[environments.uat]\ncheck = false\n", ?_, by decide +kernel⟩
    rcases List.mem_pair.1 h with rfl | rfl <;> decide +kernel
  have hsecrets : world.files.exists? (secretsBeside "viewdeploy.toml") = false := by
    rcases List.mem_pair.1 h with rfl | rfl <;> decide +kernel
  refine ⟨?_, rfl, rfl⟩
  rw [Configured, ConfiguredBy, show plainInvocation.config = none from rfl, hpath]
  refine ⟨by simp, fun path hsome => ?_⟩
  cases hsome
  exact ⟨_, ⟨[], [("uat", uncheckedSettings)], none⟩, hread, by decide +kernel, fun _ => rfl,
    fun hthere => by simp [hsecrets] at hthere⟩

theorem apart_sample (h : world ∈ [freshDirectory, settledDirectory]) :
    ∀ path, configPathOf world plainInvocation = some path →
      world.files.locate path ≠ .ok (scriptPlace .uat) := by
  intro path hpath
  cases (configPathOf_sample h).symm.trans hpath
  rcases List.mem_pair.1 h with rfl | rfl <;> decide +kernel

theorem made_fresh : Made freshDirectory.files (plainRequest .uat) (.ofNames [])
    ["CREATE VIEW a AS\nSELECT 1 FROM t"] := by
  have hview : HoldsView freshDirectory.files (Files.Path.join "." "a.sql")
      ⟨"a", "", "CREATE VIEW a AS", [], "SELECT 1 FROM t"⟩ :=
    ⟨_, ⟨Text.bytes "CREATE VIEW a AS SELECT 1 FROM t", by decide +kernel, rfl⟩, by decide +kernel⟩
  have hone : (freshDirectory.files.unsorted.filter fun entry =>
      entry.2 && Files.Path.extension? entry.1 = some "sql") = [("a.sql", true)] := by
    decide +kernel
  have hinputs : Inputs freshDirectory.files [] [Files.Path.join "." "a.sql"] :=
    ⟨fun _ => discovered_of_one hone, by simp, by simp, by decide +kernel⟩
  exact made_plain.2 ⟨_, hinputs, .cons (statementAt_empty.2 ⟨_, hview, by decide +kernel⟩) .nil⟩

/-- Where nothing was deployed yet, the second script is not the first one. -/
theorem deploying_again_adds :
    let first := (freshDirectory.ask (run ["deploy", "--uat"])).2
    let second := first.ask (run ["deploy", "--uat"])
    (freshDirectory.ask (run ["deploy", "--uat"])).1 = 0 ∧
      ¬(second.1 = 0 ∧ second.2.files.readBytes (defaultOutput .uat) =
        first.files.readBytes (defaultOutput .uat)) := by
  dsimp only
  have hsample : freshDirectory ∈ [freshDirectory, settledDirectory] := List.mem_cons_self ..
  have hunasked := unasked_sample hsample
  have hnone : freshDirectory.files.entry? (scriptPlace .uat) = none := by decide +kernel
  have hfill : freshDirectory.files.Fillable (scriptPlace .uat) := by simp [Tree.Fillable, hnone]
  obtain ⟨next, hnext, -⟩ :=
    run_plain parse_plainInvocation rfl rfl hunasked ⟨rfl, by simp⟩ made_fresh hfill
  have hfirst := congrArg Prod.fst hnext
  obtain ⟨names, made, -, hmade, -, hfiles, hiff⟩ :=
    exists_first parse_plainInvocation rfl rfl hunasked (apart_sample hsample) hfirst
  refine ⟨hfirst, fun hsame => ?_⟩
  obtain ⟨made', hagain, hsame⟩ := hiff.1 hsame
  rw [hfiles] at hagain
  have hlonger := rerun_of_no_script hnone hmade hagain
  rw [hsame] at hlonger
  exact Nat.lt_irrefl _ hlonger

theorem statementAt_settled : StatementAt settledDirectory.files .empty (.ofNames [])
    (scriptPath .uat) "CREATE VIEW a AS\nSELECT 1 FROM t;" := by
  have hview : HoldsView settledDirectory.files (scriptPath .uat)
      ⟨"a", "", "CREATE VIEW a AS", [], "SELECT 1 FROM t;"⟩ :=
    ⟨_, ⟨Text.bytes "CREATE VIEW a AS\nSELECT 1 FROM t;\n\n", by decide +kernel, rfl⟩,
      by decide +kernel⟩
  exact statementAt_empty.2 ⟨_, hview, by decide +kernel⟩

theorem made_settled : Made settledDirectory.files (plainRequest .uat) (.ofNames [])
    ["CREATE VIEW a AS\nSELECT 1 FROM t;"] := by
  have hone : (settledDirectory.files.unsorted.filter fun entry =>
      entry.2 && Files.Path.extension? entry.1 = some "sql") = [(defaultOutput .uat, true)] := by
    decide +kernel
  have hinputs : Inputs settledDirectory.files [] [scriptPath .uat] :=
    ⟨fun _ => discovered_of_one hone, by simp, by simp, by decide +kernel⟩
  exact made_plain.2 ⟨_, hinputs, .cons statementAt_settled .nil⟩

/-- Where the script is all there is, the second script is the first one. -/
theorem deploying_again_sample :
    let first := (settledDirectory.ask (run ["deploy", "--uat"])).2
    let second := first.ask (run ["deploy", "--uat"])
    (settledDirectory.ask (run ["deploy", "--uat"])).1 = 0 ∧
      (∀ paths, Inputs first.files [] paths → scriptPath .uat ∈ paths) ∧
      second.1 = 0 ∧ second.2.files.readBytes (defaultOutput .uat) =
        first.files.readBytes (defaultOutput .uat) := by
  dsimp only
  have hsample : settledDirectory ∈ [freshDirectory, settledDirectory] :=
    List.mem_cons_of_mem _ (List.mem_cons_self ..)
  have hunasked := unasked_sample hsample
  have hnames : Mapped uncheckedSettings [] [] := ⟨rfl, by simp⟩
  have hold : settledDirectory.files.entry? (scriptPlace .uat) =
      some (.file (Text.bytes "CREATE VIEW a AS\nSELECT 1 FROM t;\n\n")) := by
    decide +kernel
  have hfill : settledDirectory.files.Fillable (scriptPlace .uat) := by simp [Tree.Fillable, hold]
  obtain ⟨next, hnext, hfiles, -⟩ :=
    run_plain parse_plainInvocation rfl rfl hunasked hnames made_settled hfill
  have hagain := deploying_again_iff parse_plainInvocation rfl rfl hunasked (apart_sample hsample)
    (congrArg Prod.fst hnext)
  have hscript : script ["CREATE VIEW a AS\nSELECT 1 FROM t;"] =
      "CREATE VIEW a AS\nSELECT 1 FROM t;\n\n" := by
    decide +kernel
  rw [hscript] at hfiles
  have hsame : (settledDirectory.ask (run ["deploy", "--uat"])).2.files.find? (scriptPath .uat) =
      settledDirectory.files.find? (scriptPath .uat) := by
    rw [hnext, hfiles, find?_scriptPath, find?_scriptPath, hold, Tree.found_put_self hfill]
  exact ⟨congrArg Prod.fst hnext, hagain.1, hagain.2.2 ⟨[], _, _, hnames, statementAt_settled,
    (statementAt_congr hsame).2 statementAt_settled, rfl⟩⟩

end ViewRollout.Command
