import ViewRollout.Proofs.Command.Configured

/-!
# What a deployment writes

A deployment first gathers its configuration and the statements of its views,
then puts them out. The first part only reads and tells (`quiet_gathered`), so
a fault in it leaves every file as it was. The second part writes one file,
and only when nothing is shown instead and a person, where one has to be
asked, agrees (`files_putOut`).
-/

namespace ViewRollout.Command

open Config (Environment Settings)
open Files (Fault Quiet Tree World)
open View (Dependencies)

variable {world : World} {invocation : Invocation} {options : DeployRequest} {config : Config}
variable {settings : Settings} {made : List String} {verbose : Bool}

-- ---------------------------------------------------------------------------
-- What is gathered
-- ---------------------------------------------------------------------------

/-- The configuration that the run of an invocation has. -/
def Configured (world : World) (invocation : Invocation) (config : Config) : Prop :=
  ConfiguredBy world.files invocation.config
    (world.ask (Files.Variables.valueOf? variableFiles configVariable)).1 config

/-- Each placeholder is paired with its schema in the settings. -/
def Mapped (settings : Settings) (placeholders : List String) (names : List (String × String)) :
    Prop :=
  names.map (·.1) = placeholders ∧
    ∀ pair ∈ names, Table.get? pair.1 settings.schemas = some pair.2

/-- The settings of the environment and the statements that a deployment has before it puts
anything out. -/
inductive Gathered (world : World) (invocation : Invocation) (options : DeployRequest) :
    Settings → List String → Prop where
  | mk {config : Config} {settings : Settings} {names : List (String × String)}
      {made : List String} :
      Configured world invocation config →
      Table.get? options.environment.name config.environments = some settings →
      Mapped settings config.schemas names → Made world.files options (.ofNames names) made →
      Gathered world invocation options settings made

def question (environment : Environment) : String :=
  "Are you ready to update " ++ environment.label ++ "?"

/-- Nobody has to be asked about the environment, or the person who is asked agrees. -/
def Agreed (world : World) (settings : Settings) (environment : Environment) : Prop :=
  settings.check = false ∨ (world.run (agrees (question environment))).1 = .ok true

/-- The statements may be written: they are not shown instead, and nobody objects. -/
def Cleared (world : World) (invocation : Invocation) (options : DeployRequest)
    (made : List String) : Prop :=
  options.preview = false ∧ ∃ settings, Gathered world invocation options settings made ∧
    Agreed world settings options.environment

def DeployRequest.outputPath (options : DeployRequest) : String :=
  options.output.getD (defaultOutput options.environment)

-- ---------------------------------------------------------------------------
-- Gathering
-- ---------------------------------------------------------------------------

theorem namesIn_ok {environment : Environment} {placeholders : List String}
    {names : List (String × String)} :
    Config.namesIn environment settings placeholders = .ok names ↔
      Mapped settings placeholders names := by
  unfold Mapped
  induction placeholders generalizing names with
  | nil =>
    rw [Config.namesIn, Except.ok.injEq, List.map_eq_nil_iff]
    exact ⟨fun h => h ▸ ⟨rfl, nofun⟩, fun h => h.1.symm⟩
  | cons placeholder placeholders ih =>
    rw [Config.namesIn]
    constructor
    · intro h
      split at h
      · cases h
      · rename_i schema hschema
        cases hrest : Config.namesIn environment settings placeholders with
        | error error => rw [hrest] at h; cases h
        | ok rest =>
          rw [hrest] at h
          cases h
          obtain ⟨hkeys, hall⟩ := ih.1 hrest
          exact ⟨by rw [List.map_cons, hkeys], List.forall_mem_cons.2 ⟨hschema, hall⟩⟩
    · rintro ⟨hkeys, hall⟩
      cases names with
      | nil => cases hkeys
      | cons pair rest =>
        obtain ⟨rfl, hrest⟩ := List.cons.inj hkeys
        obtain ⟨hpair, hall⟩ := List.forall_mem_cons.1 hall
        rw [hpair]
        dsimp only
        rw [ih.2 ⟨hrest, hall⟩]
        rfl

theorem settings_ok {environment : Environment} :
    config.settings environment = .ok settings ↔
      Table.get? environment.name config.environments = some settings := by
  unfold Config.settings
  cases Table.get? environment.name config.environments <;> simp

theorem substitution_ok {environment : Environment} {substitution : Substitution}
    (h : Table.get? environment.name config.environments = some settings) :
    config.substitution environment = .ok substitution ↔
      ∃ names, Mapped settings config.schemas names ∧ substitution = .ofNames names := by
  have hnames (names : List (String × String)) :
      Mapped settings config.schemas names ↔
        Config.namesIn environment settings config.schemas = .ok names :=
    namesIn_ok.symm
  rw [Config.substitution, settings_ok.2 h]
  simp only [hnames]
  cases Config.namesIn environment settings config.schemas <;> simp [Except.map, eq_comm]

/-- All of a deployment that comes before its statements are put out. -/
def gathered (invocation : Invocation) (options : DeployRequest) :
    ExceptT Failure (StateM World) (Settings × List String) := do
  let named ← ExceptT.lift (Files.Variables.valueOf? variableFiles configVariable)
  let config ← configuration invocation.config named invocation.verbose
  let settings ←
    ExceptT.adapt .unserved (ExceptT.mk (pure (config.settings options.environment)))
  let substitution ←
    ExceptT.adapt .unserved (ExceptT.mk (pure (config.substitution options.environment)))
  return (settings, ← statements substitution options invocation.verbose)

/-- Whether a person agrees, where one has to be asked. -/
def consent (settings : Settings) (environment : Environment) :
    ExceptT Failure (StateM World) Bool :=
  if settings.check then ExceptT.adapt .silent (agrees (question environment)) else pure true

def putOut (options : DeployRequest) (settings : Settings) (made : List String) :
    ExceptT Failure (StateM World) Unit := do
  if options.preview then
    showAll made
  else
    let agreed ← consent settings options.environment
    if agreed then writeScript options.outputPath made else say "Aborted\n"

theorem perform_deploy (h : invocation.request = .deploy options) :
    (perform invocation : ExceptT Failure (StateM World) Unit) = (do
      let (settings, made) ← gathered invocation options
      putOut options settings made) := by
  unfold perform gathered deploy putOut consent
  rw [h]
  simp only [bind_assoc, pure_bind]
  congr! 7 with _ _ settings
  split
  · rfl
  · split <;> rfl

theorem quiet_gathered (invocation : Invocation) (options : DeployRequest) :
    Quiet (gathered invocation options) :=
  .bind (.lift fun world => congrArg (World.told · "") (still_valueOf _ _ world)) fun _ =>
    .bind (quiet_configuration _ _ _) fun _ => .bind (.adapt (.given _)) fun _ =>
      .bind (.adapt (.given _)) fun substitution =>
        .bind (quiet_statements substitution options invocation.verbose) fun _ => .pure _

theorem gathered_ok :
    (world.run (gathered invocation options)).1 = .ok (settings, made) ↔
      Gathered world invocation options settings made := by
  unfold gathered
  rw [Files.run_bind, Files.run_lift, still_valueOf]
  dsimp only
  rw [(quiet_configuration _ _ _).bind_ok (P := fun config =>
    Table.get? options.environment.name config.environments = some settings ∧
      ∃ names, Mapped settings config.schemas names ∧
        Made world.files options (.ofNames names) made)]
  · simp only [configuration_ok]
    constructor
    · rintro ⟨config, hconfig, hsettings, names, hnames, hmade⟩
      exact .mk hconfig hsettings hnames hmade
    · rintro ⟨hconfig, hsettings, hnames, hmade⟩
      exact ⟨_, hconfig, hsettings, _, hnames, hmade⟩
  · intro config messages
    rw [Files.adapt_given_bind_ok]
    simp only [Files.adapt_given_bind_ok]
    constructor
    · rintro ⟨found, hfound, substitution, hsubstitution, h⟩
      rw [(quiet_statements _ _ _).bind_ok (P := fun all => found = settings ∧ all = made)
        fun _ _ => by simp] at h
      obtain ⟨_, hmade, rfl, rfl⟩ := h
      have hsettings := settings_ok.1 hfound
      obtain ⟨names, hnames, rfl⟩ := (substitution_ok hsettings).1 hsubstitution
      have hmade := statements_ok.1 hmade
      exact ⟨hsettings, names, hnames, hmade⟩
    · rintro ⟨hsettings, names, hnames, hmade⟩
      refine ⟨settings, settings_ok.2 hsettings, _, (substitution_ok hsettings).2
        ⟨names, hnames, rfl⟩, ?_⟩
      rw [(quiet_statements _ _ _).bind_ok (P := fun all => all = made) fun _ _ => by simp]
      exact ⟨made, statements_ok.2 hmade, rfl⟩

-- ---------------------------------------------------------------------------
-- Putting out
-- ---------------------------------------------------------------------------

theorem keeps_say (text : String) : Files.Keeps World.files (say text) :=
  .attempt fun _ => rfl

theorem keeps_showAll (made : List String) : Files.Keeps World.files (showAll made) := by
  induction made with
  | nil => exact .pure ()
  | cons statement made ih => exact .bind (keeps_say _) fun _ => ih

theorem files_queryLines {α : Type} (cue : String) (decision : String → Option α)
    (lines : List Bytes) (world : World) :
    (World.queryLines cue decision lines world).2.files = world.files := by
  induction lines generalizing world with
  | nil =>
    have hprint : (world.print cue).2.files = world.files := rfl
    unfold World.queryLines
    generalize world.print cue = printed at hprint ⊢
    obtain ⟨_ | _, next⟩ := printed <;> exact hprint
  | cons line lines ih =>
    have hprint : (world.print cue).2.files = world.files := rfl
    unfold World.queryLines
    generalize world.print cue = printed at hprint ⊢
    obtain ⟨_ | _, next⟩ := printed
    · exact hprint
    · dsimp only at hprint ⊢
      split
      · exact hprint
      · split
        · exact hprint
        · exact (ih next).trans hprint

theorem queryLines_told {α : Type} (cue : String) (decision : String → Option α)
    (lines : List Bytes) (world : World) (messages : String) :
    World.queryLines cue decision lines (world.told messages) =
      ((World.queryLines cue decision lines world).1,
        (World.queryLines cue decision lines world).2.told messages) := by
  have hprint (world : World) : (world.told messages).print cue =
    ((world.print cue).1, (world.print cue).2.told messages) := rfl
  induction lines generalizing world with
  | nil =>
    unfold World.queryLines
    rw [hprint]
    rcases world.print cue with ⟨_ | _, next⟩ <;> rfl
  | cons line lines ih =>
    unfold World.queryLines
    rw [hprint]
    rcases world.print cue with ⟨_ | _, next⟩
    · rfl
    · dsimp only
      split
      · rfl
      · split
        · rfl
        · exact ih next

theorem keeps_agrees (question : String) : Files.Keeps World.files (agrees question) :=
  .bind (.attempt fun _ => rfl) fun _ =>
    .bind (.attempt fun _ => files_queryLines ..) fun _ => .pure _

theorem agrees_told (question : String) (world : World) (messages : String) :
    ((world.told messages).run (agrees question)).1 = (world.run (agrees question)).1 := by
  have hprint : (world.told messages).ask (Host.print (question ++ "\n")) =
    ((world.ask (Host.print (question ++ "\n"))).1,
      (world.ask (Host.print (question ++ "\n"))).2.told messages) := rfl
  have hquery (world : World) : (world.told messages).ask (Host.query ">> " answer?) =
      ((world.ask (Host.query ">> " answer?)).1,
        (world.ask (Host.query ">> " answer?)).2.told messages) :=
    queryLines_told ..
  rw [agrees, Files.run_bind, Files.run_bind, Files.run_attempt, Files.run_attempt, hprint]
  rcases world.ask (Host.print (question ++ "\n")) with ⟨_ | _, next⟩
  · rfl
  · dsimp only
    rw [Files.run_bind, Files.run_bind, Files.run_attempt, Files.run_attempt, hquery]
    rcases next.ask (Host.query ">> " answer?) with ⟨_ | _, last⟩ <;> rfl

theorem keeps_consent (settings : Settings) (environment : Environment) :
    Files.Keeps World.files (consent settings environment) := by
  unfold consent
  split
  · exact .adapt (keeps_agrees _)
  · exact .pure true

theorem consent_ok {environment : Environment} (messages : String) :
    ((world.told messages).run (consent settings environment)).1 = .ok true ↔
      Agreed world settings environment := by
  unfold consent Agreed
  split
  · rename_i hcheck
    rw [Files.adapt_ok, agrees_told]
    simp [hcheck]
  · rename_i hcheck
    simp [hcheck]

theorem files_writeScript (path : String) (world : World) :
    (world.run (writeScript path made)).2.files =
      world.files.rewritten path (Text.bytes (script made)) := by
  rw [writeScript, Files.run_bind, Files.run_attempt, Files.ask_writeBytes, World.writeBytes,
    Tree.rewritten]
  cases world.files.write path (Text.bytes (script made)) with
  | error fault => rfl
  | ok files => exact keeps_say _ _

theorem files_putOut (hpreview : options.preview = false)
    (hagreed : Agreed world settings options.environment) (messages : String) :
    ((world.told messages).run (putOut options settings made)).2.files =
      world.files.rewritten options.outputPath (Text.bytes (script made)) := by
  have hconsent := (consent_ok messages).2 hagreed
  have hkeeps := keeps_consent settings options.environment (world.told messages)
  rw [putOut, if_neg (by simp [hpreview]), Files.run_bind]
  generalize (world.told messages).run (consent settings options.environment) = asked
    at hconsent hkeeps ⊢
  obtain ⟨result, next⟩ := asked
  cases hconsent
  dsimp only at hkeeps ⊢
  rw [if_pos rfl, files_writeScript, hkeeps, Files.files_told]

theorem files_putOut_of_not
    (h : ¬(options.preview = false ∧ Agreed world settings options.environment))
    (messages : String) :
    ((world.told messages).run (putOut options settings made)).2.files = world.files := by
  unfold putOut
  split
  · exact keeps_showAll made _
  · rename_i hpreview
    have hconsent := mt (consent_ok messages).1 fun hagreed => h ⟨by simpa using hpreview, hagreed⟩
    have hkeeps := keeps_consent settings options.environment (world.told messages)
    rw [Files.run_bind]
    generalize (world.told messages).run (consent settings options.environment) = asked
      at hconsent hkeeps ⊢
    obtain ⟨_ | agreed, next⟩ := asked
    · exact hkeeps
    · obtain rfl : agreed = false := by simpa using hconsent
      exact (keeps_say _ _).trans hkeeps

-- ---------------------------------------------------------------------------
-- The whole run
-- ---------------------------------------------------------------------------

theorem files_perform (hdeploy : invocation.request = .deploy options)
    (hcleared : Cleared world invocation options made) :
    (world.run (perform invocation)).2.files =
      world.files.rewritten options.outputPath (Text.bytes (script made)) := by
  obtain ⟨hpreview, settings, hgathered, hagreed⟩ := hcleared
  have hresult := gathered_ok.2 hgathered
  obtain ⟨messages, hw⟩ := Quiet.exists_told (quiet_gathered invocation options) world
  rw [perform_deploy hdeploy, Files.run_bind]
  generalize world.run (gathered invocation options) = outcome at hresult hw ⊢
  obtain ⟨result, next⟩ := outcome
  cases hresult
  obtain rfl : next = _ := hw
  exact files_putOut hpreview hagreed messages

theorem files_perform_of_not (hdeploy : invocation.request = .deploy options)
    (h : ∀ made, ¬Cleared world invocation options made) :
    (world.run (perform invocation)).2.files = world.files := by
  have hgathered (settings : Settings) (made : List String) :
      (world.run (gathered invocation options)).1 = .ok (settings, made) →
        ¬(options.preview = false ∧ Agreed world settings options.environment) :=
    fun hresult ⟨hpreview, hagreed⟩ =>
      h made ⟨hpreview, settings, gathered_ok.1 hresult, hagreed⟩
  obtain ⟨messages, hw⟩ := Quiet.exists_told (quiet_gathered invocation options) world
  rw [perform_deploy hdeploy, Files.run_bind]
  generalize world.run (gathered invocation options) = outcome at hgathered hw ⊢
  obtain ⟨_ | ⟨settings, made⟩, next⟩ := outcome
  · obtain rfl : next = _ := hw
    rfl
  · obtain rfl : next = _ := hw
    exact files_putOut_of_not (hgathered settings made rfl) messages

theorem ask_run {arguments : List String} (h : Invocation.parse arguments = .ok invocation)
    (world : World) :
    world.ask (run arguments) = match world.run (perform invocation) with
      | (.ok (), next) => (0, next)
      | (.error failure, next) => (1, next.told (next.messages ++ failure.message)) := by
  rw [run, h]
  dsimp only
  rw [Files.ask_bind]
  show _ = match world.ask (perform invocation).run with
    | (.ok (), next) => _ | (.error _, next) => _
  rcases world.ask (perform invocation).run with ⟨_ | _, next⟩ <;> rfl

theorem files_run {arguments : List String} (h : Invocation.parse arguments = .ok invocation)
    (world : World) :
    (world.ask (run arguments)).2.files = (world.run (perform invocation)).2.files := by
  rw [ask_run h]
  rcases world.run (perform invocation) with ⟨_ | _, next⟩ <;> rfl

/-- Of all files a deployment changes at most the one at its output path, and that only when its
statements are gathered, are not shown instead, and nobody objects. When all this is so and the
file can be written, it holds the script of the statements. -/
theorem deployment_writes_cleared {arguments : List String}
    (hparse : Invocation.parse arguments = .ok invocation)
    (hdeploy : invocation.request = .deploy options) (world : World) :
    let after := (world.ask (run arguments)).2.files
    (after ≠ world.files → ∃ made, Cleared world invocation options made ∧
      world.files.write options.outputPath (Text.bytes (script made)) = .ok after) ∧
    (∀ place, after.entry? place ≠ world.files.entry? place →
      world.files.target options.outputPath = .ok place) ∧
    ∀ made files, Cleared world invocation options made →
      world.files.write options.outputPath (Text.bytes (script made)) = .ok files →
      after = files ∧ after.readBytes options.outputPath = .ok (Text.bytes (script made)) := by
  intro after
  have hafter : after = (world.run (perform invocation)).2.files := files_run hparse world
  have hwritten : after ≠ world.files → ∃ made, Cleared world invocation options made ∧
      world.files.write options.outputPath (Text.bytes (script made)) = .ok after := by
    intro hne
    by_cases h : ∃ made, Cleared world invocation options made
    · obtain ⟨made, hcleared⟩ := h
      rw [files_perform hdeploy hcleared] at hafter
      exact ⟨made, hcleared, hafter ▸ Tree.write_of_rewritten (hafter ▸ hne)⟩
    · exact absurd (hafter.trans (files_perform_of_not hdeploy (not_exists.1 h))) hne
  refine ⟨hwritten, fun place hplace => ?_, fun made files hcleared hwrite => ?_⟩
  · have hne : after ≠ world.files := fun h => hplace (by rw [h])
    obtain ⟨made, -, hwrite⟩ := hwritten hne
    obtain ⟨-, written, htarget, hframe⟩ := Tree.write_frame hwrite
    rw [htarget, Except.ok.injEq]
    by_contra hother
    exact hplace (hframe place (Ne.symm hother))
  · rw [files_perform hdeploy hcleared, Tree.rewritten_of_write hwrite] at hafter
    subst hafter
    exact ⟨rfl, (Tree.write_frame hwrite).1⟩

/-- The text of a configuration that asks nobody. -/
def sampleText : String :=
  "schemas = [\"w\"]\n[environments.uat]\ncheck = false\nw = \"dw\"\n"

def sampleSettings : Settings :=
  { Settings.unset with check := false, schemas := [("w", "dw")] }

/-- A working directory with that configuration, a view and one that it reads. -/
def sampleDirectory : World where
  files := ((Tree.empty.addFile "viewdeploy.toml" (Text.bytes sampleText)).addFile
    "b.sql" (Text.bytes "CREATE VIEW b AS SELECT 2 FROM [w].t")).addFile
      "a.sql" (Text.bytes "CREATE VIEW a AS SELECT 1 FROM [w].b")
  input := []
  output := .ofRoom none
  messages := ""
  environment := []

def sampleOptions : DeployRequest :=
  ⟨.uat, false, ["b.sql"], none, ["a.sql"]⟩

def sampleStatement : String :=
  "CREATE VIEW a AS\nWITH b AS\n(\nSELECT 2 FROM dw.t\n)\nSELECT 1 FROM b"

theorem configured_sampleDirectory :
    Configured sampleDirectory ⟨none, false, .deploy sampleOptions⟩
      ⟨["w"], [("uat", sampleSettings)], some ""⟩ := by
  have hpath : configPathIn sampleDirectory.files none
      (Files.valueUnder? configVariable sampleDirectory.environment) = some "viewdeploy.toml" := by
    decide +kernel
  rw [Configured, ask_valueOf _ (by decide +kernel), ConfiguredBy, hpath]
  refine ⟨by simp, fun path h => ?_⟩
  cases h
  exact ⟨sampleText, ⟨["w"], [("uat", sampleSettings)], none⟩,
    ⟨Text.bytes sampleText, by decide +kernel, by decide +kernel⟩, by decide +kernel,
    fun _ => by decide +kernel, fun h => absurd h (by decide +kernel)⟩

theorem cleared_sampleDirectory :
    Cleared sampleDirectory ⟨none, false, .deploy sampleOptions⟩ sampleOptions
      [sampleStatement] := by
  have hview : HoldsView sampleDirectory.files "a.sql"
      ⟨"a", "", "CREATE VIEW a AS", [], "SELECT 1 FROM [w].b"⟩ :=
    ⟨_, ⟨Text.bytes "CREATE VIEW a AS SELECT 1 FROM [w].b", by decide +kernel, rfl⟩,
      by decide +kernel⟩
  have hread : HoldsView sampleDirectory.files "b.sql"
      ⟨"b", "", "CREATE VIEW b AS", [], "SELECT 2 FROM [w].t"⟩ :=
    ⟨_, ⟨Text.bytes "CREATE VIEW b AS SELECT 2 FROM [w].t", by decide +kernel, rfl⟩,
      by decide +kernel⟩
  have hinputs : Inputs sampleDirectory.files ["a.sql"] ["a.sql"] :=
    ⟨by simp, fun _ => rfl, by decide, by decide +kernel⟩
  have hnames : Mapped sampleSettings ["w"] [("w", "dw")] := ⟨rfl, by decide⟩
  have hheld : Dependencies.insertAll [⟨"b", "", "CREATE VIEW b AS", [], "SELECT 2 FROM [w].t"⟩] =
    .ok ⟨[⟨"b", "", "CREATE VIEW b AS", [], "SELECT 2 FROM [w].t"⟩]⟩ := by decide +kernel
  refine ⟨rfl, sampleSettings, .mk configured_sampleDirectory rfl hnames (.mk hinputs
    (.cons hread .nil) hheld (.cons ⟨_, ⟨"a", "", "CREATE VIEW a AS",
      [⟨"b", "(\nSELECT 2 FROM [w].t\n)"⟩], "SELECT 1 FROM b"⟩, hview, ?_, ?_⟩ .nil)), .inl rfl⟩
  · decide +kernel
  · decide +kernel

theorem deployment_writes_sample :
    let arguments := ["deploy", "--uat", "--inline", "b.sql", "a.sql"]
    Invocation.parse arguments = .ok ⟨none, false, .deploy sampleOptions⟩ ∧
      (sampleDirectory.ask (run arguments)).2.files.readBytes "deploy-uat.sql" =
        .ok (Text.bytes (sampleStatement ++ ";\n\n")) := by
  have hparse : Invocation.parse ["deploy", "--uat", "--inline", "b.sql", "a.sql"] =
    .ok ⟨none, false, .deploy sampleOptions⟩ := by decide +kernel
  have hscript : script [sampleStatement] = sampleStatement ++ ";\n\n" := by decide +kernel
  have hwrite : sampleDirectory.files.write "deploy-uat.sql"
      (Text.bytes (script [sampleStatement])) =
    .ok (sampleDirectory.files.put ["deploy-uat.sql"] (Text.bytes (script [sampleStatement]))) :=
    Tree.write_ok.2 ⟨_, by decide +kernel, rfl⟩
  have hafter := (deployment_writes_cleared hparse rfl sampleDirectory).2.2
    [sampleStatement] _ cleared_sampleDirectory hwrite
  exact ⟨hparse, hscript ▸ hafter.2⟩

end ViewRollout.Command
