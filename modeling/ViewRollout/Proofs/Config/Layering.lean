import ViewRollout.Proofs.Command.Configured
import ViewRollout.Proofs.Toml.DistinctKeys

/-!
# Layers over layers

Documents lie over a configuration one after the other. `overlaid_last_set`:
under each key it has what the last document with the key says, and the value
from before when there is none. The check of an environment is the exception:
a table that passes as a date does not set it.
-/

namespace ViewRollout.Config

open Files (Quiet World)
open Toml (Entries Value)

variable {config : Config} {settings : Settings} {layer next : SettingsLayer}
variable {entries document : Entries} {key other name text : String} {value : Value}

-- ---------------------------------------------------------------------------
-- What is said under a key
-- ---------------------------------------------------------------------------

/-- The table under a key. A date passes as one. -/
def tableAt? (key : String) (entries : Entries) : Option Entries :=
  (Table.get? key entries).bind Value.entries?

def environmentTable? (name : String) (document : Entries) : Option Entries :=
  (tableAt? "environments" document).bind (tableAt? name)

/-- The value of a layer under a key of an environment's table. -/
def SettingsLayer.value? (layer : SettingsLayer) (key : String) : Option Value :=
  if key = "host" then layer.host.map .string
  else if key = "port" then layer.port.map fun port => .integer port.toNat
  else if key = "username" then layer.username.map .string
  else if key = "password" then layer.password.map .string
  else if key = "check" then layer.check.map .boolean
  else (Table.get? key layer.schemas).map .string

def Settings.value? (settings : Settings) : String → Option Value :=
  SettingsLayer.value? ⟨settings.host, settings.port, settings.username, settings.password,
    some settings.check, settings.schemas⟩

/-- What a configuration has under a key of an environment; unset is what it has no table for. -/
def value? (config : Config) (name : String) : String → Option Value :=
  ((Table.get? name config.environments).getD .unset).value?

-- ---------------------------------------------------------------------------
-- Layers of an environment
-- ---------------------------------------------------------------------------

namespace SettingsLayer

theorem string?_eq_some_iff {s : String} : string? value = some s ↔ value = .string s := by
  cases value <;> simp [string?]

theorem boolean?_eq_some_iff {b : Bool} : boolean? value = some b ↔ value = .boolean b := by
  cases value <;> simp [boolean?]

theorem integer_of_port {port : UInt16} (h : port? value = some port) :
    value = .integer port.toNat := by
  cases value <;> simp only [port?, reduceCtorEq] at h
  rename_i n
  split at h
  · cases h
    rename_i hn
    congr 1
    simp
    omega
  · cases h

theorem value?_set (h : layer.set key value = some next) :
    next.value? other = if other = key then some value else layer.value? other := by
  unfold set at h
  split at h
  · obtain ⟨s, hs, rfl⟩ := Option.map_eq_some_iff.1 h
    by_cases ho : other = "host" <;> simp_all [value?, string?_eq_some_iff]
  split at h
  · obtain ⟨port, hport, rfl⟩ := Option.map_eq_some_iff.1 h
    by_cases ho : other = "port" <;> simp_all [value?, integer_of_port hport]
  split at h
  · obtain ⟨s, hs, rfl⟩ := Option.map_eq_some_iff.1 h
    by_cases ho : other = "username" <;> simp_all [value?, string?_eq_some_iff]
  split at h
  · obtain ⟨s, hs, rfl⟩ := Option.map_eq_some_iff.1 h
    by_cases ho : other = "password" <;> simp_all [value?, string?_eq_some_iff]
  split at h
  · obtain ⟨b, hb, rfl⟩ := Option.map_eq_some_iff.1 h
    by_cases ho : other = "check" <;> simp_all [value?, boolean?_eq_some_iff]
  · obtain ⟨s, hs, rfl⟩ := Option.map_eq_some_iff.1 h
    by_cases ho : other = key
    · simp_all [value?, string?_eq_some_iff, Table.get?_put]
    · simp [value?, Table.get?_put, ho]

theorem nodup_set (h : layer.set key value = some next)
    (hlayer : (Table.keys layer.schemas).Nodup) :
    (Table.keys next.schemas).Nodup := by
  unfold set at h
  split_ifs at h <;> obtain ⟨_, -, rfl⟩ := Option.map_eq_some_iff.1 h
  case neg => exact Table.nodup_keys_put hlayer
  all_goals exact hlayer

theorem foldlM_set {start : SettingsLayer} (hentries : (Table.keys entries).Nodup)
    (hstart : (Table.keys start.schemas).Nodup)
    (h : entries.foldlM (fun layer (key, value) => layer.set key value) start = some layer) :
    (Table.keys layer.schemas).Nodup ∧
      ∀ key, layer.value? key = (Table.get? key entries).or (start.value? key) := by
  induction entries generalizing start with
  | nil =>
    cases h
    exact ⟨hstart, fun _ => rfl⟩
  | cons pair rest ih =>
    obtain ⟨k, value⟩ := pair
    obtain ⟨hk, hrest⟩ := List.nodup_cons.1 (show (k :: Table.keys rest).Nodup from hentries)
    obtain ⟨next, hnext, h⟩ := Option.bind_eq_some_iff.1 h
    obtain ⟨hnodup, hvalue⟩ := ih hrest (nodup_set hnext hstart) h
    refine ⟨hnodup, fun key => ?_⟩
    rw [hvalue, value?_set hnext, Table.get?]
    by_cases hkey : k = key
    · subst hkey
      simp [Table.get?_eq_none_iff.2 hk]
    · simp [hkey, Ne.symm hkey]

/-- What a table says under a key, when it goes over others. -/
def saidOver? (key : String) (entries : Entries) : Option Value :=
  if key = "check" ∧ entries.passesAsDate then none else Table.get? key entries

/-- The layers that are read of tables have under each key what is said there. -/
def Reads (read : Entries → Option SettingsLayer) (said : String → Entries → Option Value) :
    Prop :=
  ∀ {entries : Entries} {layer : SettingsLayer}, (Table.keys entries).Nodup →
    read entries = some layer →
      (Table.keys layer.schemas).Nodup ∧ ∀ key, layer.value? key = said key entries

theorem reads_ofEntries : Reads ofEntries Table.get? := by
  intro entries layer hentries h
  have hstart : (Table.keys SettingsLayer.empty.schemas).Nodup := List.nodup_nil
  obtain ⟨hnodup, hvalue⟩ := foldlM_set hentries hstart h
  refine ⟨hnodup, fun key => ?_⟩
  have hempty : SettingsLayer.empty.value? key = none := by
    simp [value?, empty, Table.get?]
  rw [hvalue, hempty, Option.or_none]

theorem reads_overlay : Reads overlay saidOver? := by
  intro entries layer hentries h
  obtain ⟨own, hown, rfl⟩ := Option.map_eq_some_iff.1 h
  obtain ⟨hnodup, hvalue⟩ := reads_ofEntries hentries hown
  cases hdate : entries.passesAsDate with
  | false => exact ⟨hnodup, fun key => by simpa [saidOver?, hdate] using hvalue key⟩
  | true =>
    refine ⟨hnodup, fun key => ?_⟩
    by_cases hkey : key = "check"
    · simp [saidOver?, hdate, hkey, value?]
    · simpa [saidOver?, hdate, hkey, value?] using hvalue key

theorem isSome_overlay : (overlay entries).isSome = (ofEntries entries).isSome :=
  Option.isSome_map

end SettingsLayer

theorem Settings.value?_withLayer (settings : Settings)
    (hlayer : (Table.keys layer.schemas).Nodup) (key : String) :
    (settings.withLayer layer).value? key = (layer.value? key).or (settings.value? key) := by
  unfold Settings.value? SettingsLayer.value? Settings.withLayer
  split_ifs
  · cases layer.host <;> rfl
  · cases layer.port <;> rfl
  · cases layer.username <;> rfl
  · cases layer.password <;> rfl
  · cases layer.check <;> rfl
  · dsimp only
    rw [Table.get?_putAll_of_nodup hlayer]
    cases Table.get? key layer.schemas <;> rfl

-- ---------------------------------------------------------------------------
-- Layers of a configuration
-- ---------------------------------------------------------------------------

theorem get?_layerEnvironments {layers : Table String SettingsLayer}
    (hlayers : (Table.keys layers).Nodup) (environments : Table String Settings) (name : String) :
    Table.get? name (layerEnvironments environments layers) =
      (Table.get? name layers).elim (Table.get? name environments)
        fun layer => some (((Table.get? name environments).getD .unset).withLayer layer) := by
  induction layers generalizing environments with
  | nil => rfl
  | cons pair rest ih =>
    obtain ⟨n, layer⟩ := pair
    obtain ⟨hn, hrest⟩ := List.nodup_cons.1 (show (n :: Table.keys rest).Nodup from hlayers)
    have hstep : layerEnvironments environments ((n, layer) :: rest) = layerEnvironments
        (Table.put n (((Table.get? n environments).getD .unset).withLayer layer) environments)
        rest := rfl
    rw [hstep, ih hrest, Table.get?_put, Table.get?]
    by_cases hname : n = name
    · subst hname
      simp [Table.get?_eq_none_iff.2 hn]
    · simp [hname, Ne.symm hname]

def layers? (read : Entries → Option SettingsLayer) (environments : Entries) :
    Option (Table String SettingsLayer) :=
  environments.mapM fun (name, value) =>
    (value.entries?.bind read).map fun layer => (name, layer)

theorem layers?_cons {read : Entries → Option SettingsLayer} {rest : Entries}
    {layers : Table String SettingsLayer} :
    layers? read ((name, value) :: rest) = some layers ↔
      ∃ entries layer others, value.entries? = some entries ∧ read entries = some layer ∧
        layers? read rest = some others ∧ layers = (name, layer) :: others := by
  rw [layers?, List.mapM_cons, ← layers?]
  simp only [Option.bind_eq_bind, Option.bind_eq_some_iff, Option.map_eq_some_iff]
  constructor
  · rintro ⟨_, ⟨layer, ⟨entries, hentries, hlayer⟩, rfl⟩, others, hothers, h⟩
    cases h
    exact ⟨entries, layer, others, hentries, hlayer, hothers, rfl⟩
  · rintro ⟨entries, layer, others, hentries, hlayer, hothers, rfl⟩
    exact ⟨_, ⟨layer, ⟨entries, hentries, hlayer⟩, rfl⟩, others, hothers, rfl⟩

theorem layers?_ok {read : Entries → Option SettingsLayer} {environments : Entries}
    {layers : Table String SettingsLayer} (h : layers? read environments = some layers) :
    Table.keys layers = Table.keys environments ∧ ∀ name,
      Table.get? name layers = (tableAt? name environments).bind read := by
  induction environments generalizing layers with
  | nil =>
    cases h
    exact ⟨rfl, fun _ => rfl⟩
  | cons pair rest ih =>
    obtain ⟨n, value⟩ := pair
    obtain ⟨entries, layer, others, hentries, hlayer, hothers, rfl⟩ := layers?_cons.1 h
    obtain ⟨hkeys, hget⟩ := ih hothers
    refine ⟨congrArg (n :: ·) hkeys, fun name => ?_⟩
    rw [tableAt?, Table.get?, Table.get?]
    by_cases hname : n = name
    · simp [hname, hentries, hlayer]
    · simpa [hname, tableAt?] using hget name

/-- The placeholders that a document lists, if any. -/
def listed? (document : Entries) : Option (Option (List String)) :=
  match Table.get? "schemas" document with
  | none => some none
  | some value => (strings? value).map some

def tables? (document : Entries) : Option Entries :=
  match Table.get? "environments" document with
  | none => some []
  | some value => value.entries?

theorem ofEntries_eq (read : Entries → Option SettingsLayer) (document : Entries) :
    Layer.ofEntries read document =
      (listed? document).bind fun schemas => (tables? document).bind fun environments =>
        (layers? read environments).map fun layers => ⟨schemas, layers⟩ := by
  unfold Layer.ofEntries listed? tables?
  cases Table.get? "schemas" document <;> cases Table.get? "environments" document <;>
    simp only [layers?, bind, pure, Option.map_eq_bind, Option.bind_some, Function.comp_def]

theorem environmentTable?_eq {environments : Entries} (h : tables? document = some environments)
    (name : String) : environmentTable? name document = tableAt? name environments := by
  unfold tables? at h
  unfold environmentTable?
  rw [tableAt?]
  split at h <;> simp_all [tableAt?, Table.get?]

theorem distinct_tables {environments : Entries} (hdocument : document.Distinct)
    (h : tables? document = some environments) : environments.Distinct := by
  unfold tables? at h
  split at h
  · cases h
    exact .nil
  · rename_i hget
    exact (hdocument.values _ _ hget).of_entries? h

structure LayerOf (read : Entries → Option SettingsLayer) (document : Entries) (layer : Layer) :
    Prop where
  unlisted : Table.get? "schemas" document = none → layer.schemas = none
  listed : ∀ value, Table.get? "schemas" document = some value →
    ∃ schemas, strings? value = some schemas ∧ layer.schemas = some schemas
  nodup : (Table.keys layer.environments).Nodup
  environments : ∀ name,
    Table.get? name layer.environments = (environmentTable? name document).bind read
  read : ∀ name, (environmentTable? name document).isSome →
    (Table.get? name layer.environments).isSome

theorem layerOf {read : Entries → Option SettingsLayer} {layer : Layer}
    (hdocument : document.Distinct) (h : Layer.ofEntries read document = some layer) :
    LayerOf read document layer := by
  rw [ofEntries_eq] at h
  obtain ⟨schemas, hschemas, h⟩ := Option.bind_eq_some_iff.1 h
  obtain ⟨environments, henvironments, h⟩ := Option.bind_eq_some_iff.1 h
  obtain ⟨layers, hlayers, rfl⟩ := Option.map_eq_some_iff.1 h
  obtain ⟨hkeys, hget⟩ := layers?_ok hlayers
  unfold listed? at hschemas
  refine ⟨fun hnone => ?_, fun value hvalue => ?_, ?_, fun name => ?_, fun name hname => ?_⟩
  · rw [hnone] at hschemas
    cases hschemas
    rfl
  · rw [hvalue] at hschemas
    obtain ⟨found, hfound, rfl⟩ := Option.map_eq_some_iff.1 hschemas
    exact ⟨found, hfound, rfl⟩
  · exact hkeys ▸ (distinct_tables hdocument henvironments).keys
  · rw [hget, environmentTable?_eq henvironments]
  · rw [environmentTable?_eq henvironments, tableAt?] at hname
    show Table.contains name layers = true
    rw [Table.contains_iff, hkeys, ← Table.contains_iff]
    exact Option.isSome_of_isSome_bind hname

theorem distinct_environmentTable (hdocument : document.Distinct)
    (h : environmentTable? name document = some entries) : entries.Distinct := by
  obtain ⟨environments, henvironments, h⟩ := Option.bind_eq_some_iff.1 h
  obtain ⟨value, hvalue, henvironments⟩ := Option.bind_eq_some_iff.1 henvironments
  obtain ⟨inner, hinner, h⟩ := Option.bind_eq_some_iff.1 h
  have hdistinct := (hdocument.values _ _ hvalue).of_entries? henvironments
  exact (hdistinct.values _ _ hinner).of_entries? h

section
variable {read : Entries → Option SettingsLayer} {said : String → Entries → Option Value}
variable {layer : Layer}

theorem LayerOf.schemas_none (h : LayerOf read document layer)
    (hnone : Table.get? "schemas" document = none) :
    (config.withLayer layer).schemas = config.schemas := by
  rw [withLayer, h.unlisted hnone, Option.getD_none]

theorem LayerOf.schemas_some (h : LayerOf read document layer)
    (hsome : Table.get? "schemas" document = some value) :
    strings? value = some (config.withLayer layer).schemas := by
  obtain ⟨schemas, hvalue, hschemas⟩ := h.listed value hsome
  rw [withLayer, hschemas, Option.getD_some, hvalue]

theorem LayerOf.isSome_environment (h : LayerOf read document layer) :
    (Table.get? name (config.withLayer layer).environments).isSome ↔
      (Table.get? name config.environments).isSome ∨ (environmentTable? name document).isSome := by
  rw [withLayer, get?_layerEnvironments h.nodup]
  cases htable : environmentTable? name document with
  | none => simp [h.environments, htable]
  | some entries =>
    obtain ⟨own, hown⟩ := Option.isSome_iff_exists.1 (h.read name (by simp [htable]))
    simp [hown]

theorem LayerOf.value?_withLayer (config : Config) (hread : SettingsLayer.Reads read said)
    (hdocument : document.Distinct) (h : LayerOf read document layer) (name key : String) :
    (config.withLayer layer).value? name key =
      ((environmentTable? name document).bind (said key)).or (config.value? name key) := by
  have henvironment := h.environments name
  rw [value?, withLayer, get?_layerEnvironments h.nodup]
  cases htable : environmentTable? name document with
  | none =>
    rw [henvironment, htable]
    rfl
  | some entries =>
    obtain ⟨own, hown⟩ := Option.isSome_iff_exists.1 (h.read name (by simp [htable]))
    rw [htable] at henvironment
    obtain ⟨hnodup, hvalue⟩ :=
      hread (distinct_environmentTable hdocument htable).keys (henvironment.symm.trans hown)
    rw [hown, Option.elim_some, Option.getD_some, Settings.value?_withLayer _ hnodup, hvalue]
    rfl

end

-- ---------------------------------------------------------------------------
-- Documents over one another
-- ---------------------------------------------------------------------------

/-- The document of a text, when it is taken in over others: it is the document of a configuration
by itself, and all of its tables have values. -/
def taken? (text : String) : Option Entries :=
  (Toml.document? text).filter fun document =>
    (Layer.ofEntries SettingsLayer.ofEntries document).isSome && Toml.soundEntries document

/-- The configuration with the texts over it one after the other. A text that is refused leaves it
as it is. -/
def overlaid (config : Config) (texts : List String) : Config :=
  texts.foldl (fun config text => (config.withText text).toOption.getD config) config

theorem isSome_layers {read other : Entries → Option SettingsLayer}
    (h : ∀ entries, (other entries).isSome = (read entries).isSome) (environments : Entries) :
    (layers? other environments).isSome = (layers? read environments).isSome := by
  induction environments with
  | nil => rfl
  | cons pair rest ih =>
    obtain ⟨name, value⟩ := pair
    rw [layers?, layers?] at ih ⊢
    simp only [List.mapM_cons, Option.bind_eq_bind, Option.isSome_bind]
    cases hentries : value.entries? with
    | none => simp
    | some entries =>
      have hentries := h entries
      cases hread : read entries <;> cases hother : other entries <;> simp_all

theorem isSome_overlay (document : Entries) :
    (Layer.ofEntries SettingsLayer.overlay document).isSome =
      (Layer.ofEntries SettingsLayer.ofEntries document).isSome := by
  rw [ofEntries_eq, ofEntries_eq]
  cases listed? document with
  | none => rfl
  | some schemas =>
    cases tables? document with
    | none => rfl
    | some environments =>
      simp only [Option.bind_some, Option.isSome_map]
      exact isSome_layers (fun _ => SettingsLayer.isSome_overlay) environments

theorem taken?_eq_some_iff : taken? text = some document ↔
    Toml.document? text = some document ∧
      (Layer.ofEntries SettingsLayer.ofEntries document).isSome ∧
        Toml.soundEntries document = true := by
  simp [taken?, Option.filter_eq_some_iff]

theorem withText_of_taken (config : Config) (h : taken? text = some document) : ∃ layer,
    config.withText text = .ok (config.withLayer layer) ∧ document.Distinct ∧
      LayerOf SettingsLayer.overlay document layer := by
  obtain ⟨hdocument, hlayer, hsound⟩ := taken?_eq_some_iff.1 h
  have hdistinct := Toml.distinct_document hdocument
  rw [← isSome_overlay] at hlayer
  obtain ⟨layer, hlayer⟩ := Option.isSome_iff_exists.1 hlayer
  refine ⟨layer, ?_, hdistinct, layerOf hdistinct hlayer⟩
  rw [withText, Layer.parseOver, hdocument, Option.bind_some, if_pos hsound, hlayer, layered]

theorem withText_of_not_taken (h : taken? text = none) :
    config.withText text = .error .notConfig := by
  rw [withText, Layer.parseOver]
  cases hdocument : Toml.document? text with
  | none => rfl
  | some document =>
    have hnot := mt taken?_eq_some_iff.2 (h ▸ nofun : taken? text ≠ some document)
    rw [← isSome_overlay] at hnot
    rw [Option.bind_some]
    split
    · rename_i hsound
      cases hlayer : Layer.ofEntries SettingsLayer.overlay document with
      | none => rfl
      | some layer => exact absurd ⟨hdocument, by rw [hlayer]; rfl, hsound⟩ hnot
    · rfl

theorem exists_withText_iff :
    (∃ next, config.withText text = .ok next) ↔ ∃ document, taken? text = some document := by
  cases h : taken? text with
  | none => simp [withText_of_not_taken h]
  | some document =>
    obtain ⟨layer, hlayer, -, -⟩ := withText_of_taken config h
    simp [hlayer]

/-- The configuration that is left when a text goes over one. -/
theorem overlaid_cons (config : Config) (text : String) (rest : List String) :
    ∃ next : Config, config.overlaid (text :: rest) = next.overlaid rest ∧
      (taken? text = none → next = config) ∧
      ∀ document, taken? text = some document → ∃ layer, next = config.withLayer layer ∧
        document.Distinct ∧ LayerOf SettingsLayer.overlay document layer := by
  refine ⟨(config.withText text).toOption.getD config, rfl, fun hnone => ?_, fun document h => ?_⟩
  · rw [withText_of_not_taken hnone]
    rfl
  · obtain ⟨layer, hlayer, hrest⟩ := withText_of_taken config h
    exact ⟨layer, by rw [hlayer]; rfl, hrest⟩

/-- What the last of the documents says that says anything. -/
def last? {α : Type} (said : Entries → Option α) (documents : List Entries) : Option α :=
  (documents.filterMap said).getLast?

theorem last?_cons {α : Type} (said : Entries → Option α) (document : Entries)
    (documents : List Entries) :
    last? said (document :: documents) = (last? said documents).or (said document) := by
  unfold last?
  cases h : said document with
  | none => simp [h]
  | some a =>
    rw [List.filterMap_cons_some h, List.getLast?_cons]
    cases (documents.filterMap said).getLast? <;> rfl

theorem schemas_overlaid (config : Config) (texts : List String) :
    (last? (Table.get? "schemas") (texts.filterMap taken?)).elim
      ((config.overlaid texts).schemas = config.schemas)
      fun value => strings? value = some (config.overlaid texts).schemas := by
  induction texts generalizing config with
  | nil => rfl
  | cons text rest ih =>
    obtain ⟨next, hnext, hnone, hsome⟩ := overlaid_cons config text rest
    rw [hnext]
    have hrest := ih next
    cases htaken : taken? text with
    | none =>
      rw [List.filterMap_cons_none htaken]
      rw [hnone htaken] at hrest ⊢
      exact hrest
    | some document =>
      rw [List.filterMap_cons_some htaken, last?_cons]
      cases hlast : last? (Table.get? "schemas") (rest.filterMap taken?) with
      | some value =>
        rw [hlast] at hrest
        exact hrest
      | none =>
        rw [hlast] at hrest
        obtain ⟨layer, rfl, -, hlayer⟩ := hsome document htaken
        rw [Option.none_or]
        cases hschemas : Table.get? "schemas" document with
        | none => exact hrest.trans (hlayer.schemas_none hschemas)
        | some value =>
          rw [Option.elim_some, show (overlaid _ rest).schemas = _ from hrest]
          exact hlayer.schemas_some hschemas

theorem isSome_overlaid (config : Config) (texts : List String) (name : String) :
    (Table.get? name (config.overlaid texts).environments).isSome ↔
      (Table.get? name config.environments).isSome ∨
        ∃ document ∈ texts.filterMap taken?, (environmentTable? name document).isSome := by
  induction texts generalizing config with
  | nil => simp [overlaid]
  | cons text rest ih =>
    obtain ⟨next, hnext, hnone, hsome⟩ := overlaid_cons config text rest
    rw [hnext, ih]
    cases htaken : taken? text with
    | none => rw [List.filterMap_cons_none htaken, hnone htaken]
    | some document =>
      obtain ⟨layer, rfl, -, hlayer⟩ := hsome document htaken
      rw [List.filterMap_cons_some htaken, hlayer.isSome_environment, List.exists_mem_cons_iff,
        or_assoc]

theorem value?_overlaid (config : Config) (texts : List String) (name key : String) :
    (config.overlaid texts).value? name key =
      (last? (fun document => (environmentTable? name document).bind
        (SettingsLayer.saidOver? key)) (texts.filterMap taken?)).or (config.value? name key) := by
  induction texts generalizing config with
  | nil => rfl
  | cons text rest ih =>
    obtain ⟨next, hnext, hnone, hsome⟩ := overlaid_cons config text rest
    rw [hnext, ih]
    cases htaken : taken? text with
    | none => rw [List.filterMap_cons_none htaken, hnone htaken]
    | some document =>
      obtain ⟨layer, rfl, hdistinct, hlayer⟩ := hsome document htaken
      rw [List.filterMap_cons_some htaken, last?_cons, Option.or_assoc,
        hlayer.value?_withLayer config SettingsLayer.reads_overlay hdistinct]

-- ---------------------------------------------------------------------------
-- Over nothing
-- ---------------------------------------------------------------------------

theorem layerEnvironments_eq_append {layers : Table String SettingsLayer}
    {environments : Table String Settings} (hlayers : (Table.keys layers).Nodup)
    (hfree : ∀ name ∈ Table.keys layers, name ∉ Table.keys environments) :
    layerEnvironments environments layers =
      environments ++ layers.map fun (name, layer) => (name, Settings.unset.withLayer layer) := by
  induction layers generalizing environments with
  | nil => exact (List.append_nil _).symm
  | cons pair rest ih =>
    obtain ⟨name, layer⟩ := pair
    obtain ⟨hname, hrest⟩ := List.nodup_cons.1 (show (name :: Table.keys rest).Nodup from hlayers)
    obtain ⟨hnew, hfree⟩ := List.forall_mem_cons.1
      (show ∀ n ∈ name :: Table.keys rest, n ∉ Table.keys environments from hfree)
    have hstep : layerEnvironments environments ((name, layer) :: rest) = layerEnvironments
        (Table.put name (((Table.get? name environments).getD .unset).withLayer layer)
          environments) rest := rfl
    rw [hstep, Table.get?_eq_none_iff.2 hnew, Option.getD_none, Table.put_of_not_mem hnew,
      ih hrest, List.map_cons, List.append_assoc, List.singleton_append]
    intro other hother
    rw [Table.keys, List.map_append, List.mem_append, not_or]
    refine ⟨hfree other hother, fun hsame => hname ?_⟩
    obtain rfl : other = name := List.mem_singleton.1 hsame
    exact hother

/-- The table passes as a date, and so what it says of the check is lost over others. -/
def LosesCheck (entries : Entries) : Prop :=
  entries.passesAsDate = true ∧ Table.get? "check" entries = some (.boolean false)

theorem withLayer_unset_overlay {own : SettingsLayer} (hnodup : (Table.keys entries).Nodup)
    (hkeeps : ¬LosesCheck entries) (hlayer : SettingsLayer.overlay entries = some layer)
    (hown : SettingsLayer.ofEntries entries = some own) :
    Settings.unset.withLayer layer = Settings.unset.withLayer own := by
  rw [SettingsLayer.overlay, hown, Option.map_some, Option.some.injEq] at hlayer
  subst hlayer
  split
  · rename_i hdate
    have hcheck := (SettingsLayer.reads_ofEntries hnodup hown).2 "check"
    have hnot : Table.get? "check" entries ≠ some (.boolean false) := fun h => hkeeps ⟨hdate, h⟩
    rw [← hcheck] at hnot
    obtain ⟨host, port, username, password, check, schemas⟩ := own
    cases check with
    | none => rfl
    | some b =>
      cases b with
      | true => rfl
      | false => exact absurd rfl hnot
  · rfl

theorem layers_unset {environments : Entries} {layers own : Table String SettingsLayer}
    (henvironments : ∀ pair ∈ environments, ∀ entries, pair.2.entries? = some entries →
      (Table.keys entries).Nodup ∧ ¬LosesCheck entries)
    (hlayers : layers? SettingsLayer.overlay environments = some layers)
    (hown : layers? SettingsLayer.ofEntries environments = some own) :
    layers.map (fun (name, layer) => (name, Settings.unset.withLayer layer)) =
      own.map fun (name, layer) => (name, Settings.unset.withLayer layer) := by
  induction environments generalizing layers own with
  | nil =>
    cases hlayers
    cases hown
    rfl
  | cons pair rest ih =>
    obtain ⟨name, value⟩ := pair
    obtain ⟨hhead, hrest⟩ := List.forall_mem_cons.1 henvironments
    obtain ⟨entries, layer, others, hentries, hlayer, hothers, rfl⟩ := layers?_cons.1 hlayers
    obtain ⟨_, ownLayer, ownOthers, hsame, hownLayer, hownOthers, rfl⟩ := layers?_cons.1 hown
    cases hentries.symm.trans hsame
    obtain ⟨hnodup, hkeeps⟩ := hhead entries hentries
    have hunset := withLayer_unset_overlay hnodup hkeeps hlayer hownLayer
    rw [List.map_cons, List.map_cons, ih hrest hothers hownOthers]
    dsimp only
    rw [hunset]

theorem withLayer_default_overlay {layer own : Layer} (hdocument : document.Distinct)
    (hkeeps : ∀ name entries, environmentTable? name document = some entries →
      ¬LosesCheck entries)
    (hlayer : Layer.ofEntries SettingsLayer.overlay document = some layer)
    (hown : Layer.ofEntries SettingsLayer.ofEntries document = some own) :
    Config.default.withLayer layer = Config.default.withLayer own := by
  rw [ofEntries_eq] at hlayer hown
  obtain ⟨schemas, hschemas, hlayer⟩ := Option.bind_eq_some_iff.1 hlayer
  obtain ⟨environments, henvironments, hlayer⟩ := Option.bind_eq_some_iff.1 hlayer
  rw [hschemas, Option.bind_some, henvironments, Option.bind_some] at hown
  obtain ⟨layers, hlayers, rfl⟩ := Option.map_eq_some_iff.1 hlayer
  obtain ⟨ownLayers, hownLayers, rfl⟩ := Option.map_eq_some_iff.1 hown
  have hdistinct := distinct_tables hdocument henvironments
  have hnodup := hdistinct.keys
  have hownNodup := hdistinct.keys
  rw [← (layers?_ok hlayers).1] at hnodup
  rw [← (layers?_ok hownLayers).1] at hownNodup
  have hunset := layers_unset (fun pair hpair entries hentries => ?_) hlayers hownLayers
  · have hnew (layers : Table String SettingsLayer) (hnodup : (Table.keys layers).Nodup) :
        layerEnvironments Config.default.environments layers =
          layers.map fun (name, layer) => (name, Settings.unset.withLayer layer) :=
      layerEnvironments_eq_append hnodup fun _ _ => List.not_mem_nil
    rw [withLayer, withLayer, hnew _ hnodup, hnew _ hownNodup, hunset]
  · have hget := Table.get?_of_mem hdistinct.keys hpair
    refine ⟨((hdistinct.values _ _ hget).of_entries? hentries).keys, hkeeps pair.1 entries ?_⟩
    rw [environmentTable?_eq henvironments, tableAt?, hget, Option.bind_some, hentries]

/-- Over nothing a text comes to what it is by itself, unless it is refused for a table without a
value or loses a check. -/
theorem withText_default_iff : Config.default.withText text = Config.parse text ↔
    ∀ document, Toml.document? text = some document →
      (Layer.ofEntries SettingsLayer.ofEntries document).isSome →
        Toml.soundEntries document = true ∧ ∀ name entries,
          environmentTable? name document = some entries → ¬LosesCheck entries := by
  constructor
  · intro h document hdocument hlayer
    have hdistinct := Toml.distinct_document hdocument
    obtain ⟨own, hown⟩ := Option.isSome_iff_exists.1 hlayer
    have hparse : Config.parse text = .ok (Config.default.withLayer own) := by
      rw [parse, Layer.parse, hdocument, Option.bind_some, hown, layered]
    rw [hparse] at h
    obtain ⟨taken, htaken⟩ := exists_withText_iff.1 ⟨_, h⟩
    obtain ⟨hsame, -, hsound⟩ := taken?_eq_some_iff.1 htaken
    cases hdocument.symm.trans hsame
    refine ⟨hsound, fun name entries htable ⟨hdate, hcheck⟩ => ?_⟩
    obtain ⟨layer, hover, -, hlayerOf⟩ := withText_of_taken .default htaken
    rw [hover, Except.ok.injEq] at h
    have hvalue := hlayerOf.value?_withLayer .default
      SettingsLayer.reads_overlay hdistinct name "check"
    rw [h,
      (layerOf hdistinct hown).value?_withLayer .default SettingsLayer.reads_ofEntries hdistinct,
      htable, Option.bind_some, Option.bind_some, hcheck, SettingsLayer.saidOver?,
      if_pos ⟨rfl, hdate⟩] at hvalue
    cases hvalue
  · intro h
    cases hdocument : Toml.document? text with
    | none => rw [withText, Layer.parseOver, parse, Layer.parse, hdocument]; rfl
    | some document =>
      cases hown : Layer.ofEntries SettingsLayer.ofEntries document with
      | none =>
        have hnot : taken? text = none := by
          rw [taken?, hdocument]
          simp [hown]
        rw [withText_of_not_taken hnot, parse, Layer.parse, hdocument, Option.bind_some, hown,
          layered]
      | some own =>
        obtain ⟨hsound, hkeeps⟩ := h document hdocument (by rw [hown]; rfl)
        obtain ⟨layer, hlayer⟩ := Option.isSome_iff_exists.1
          ((isSome_overlay document).trans (by rw [hown]; rfl))
        rw [withText, Layer.parseOver, parse, Layer.parse, hdocument, Option.bind_some,
          Option.bind_some, if_pos hsound, hlayer, hown, layered, layered,
          withLayer_default_overlay (Toml.distinct_document hdocument) hkeeps hlayer hown]

-- ---------------------------------------------------------------------------
-- Files over one another
-- ---------------------------------------------------------------------------

theorem loadOver_ok {world : World} {paths : List String} {result : Config} :
    (world.run (loadOver config paths)).1 = .ok result ↔
      ∃ texts, List.Forall₂ world.files.HoldsText (paths.filter world.files.exists?) texts ∧
        (∀ text ∈ texts, (taken? text).isSome) ∧ result = config.overlaid texts := by
  induction paths generalizing world config with
  | nil =>
    simp only [loadOver, Files.run_pure, List.filter_nil, List.forall₂_nil_left_iff,
      exists_eq_left, Except.ok.injEq]
    exact ⟨fun h => ⟨List.forall_mem_nil _, h.symm⟩, fun h => h.2.symm⟩
  | cons path paths ih =>
    rw [loadOver, Files.run_bind, Files.run_lift, Files.ask_isThere]
    cases hthere : world.files.exists? path with
    | false =>
      rw [List.filter_cons_of_neg (by simp [hthere])]
      exact ih
    | true =>
      rw [List.filter_cons_of_pos hthere]
      dsimp only
      rw [if_pos rfl, Quiet.bind_ok (P := fun text => ∃ next, config.withText text = .ok next ∧
        ∃ texts, List.Forall₂ world.files.HoldsText (paths.filter world.files.exists?) texts ∧
          (∀ text ∈ texts, (taken? text).isSome) ∧ result = next.overlaid texts)
        (.attempt fun _ => rfl)]
      · simp only [Files.run_readText_ok, List.forall₂_cons_left_iff]
        constructor
        · rintro ⟨text, htext, next, hnext, texts, htexts, htaken, rfl⟩
          refine ⟨_, ⟨text, texts, htext, htexts, rfl⟩, List.forall_mem_cons.2 ⟨?_, htaken⟩, ?_⟩
          · exact Option.isSome_iff_exists.2 (exists_withText_iff.1 ⟨next, hnext⟩)
          · rw [overlaid, overlaid, List.foldl_cons, hnext]
            rfl
        · rintro ⟨_, ⟨text, texts, htext, htexts, rfl⟩, htaken, rfl⟩
          obtain ⟨hfirst, htaken⟩ := List.forall_mem_cons.1 htaken
          obtain ⟨next, hnext⟩ := exists_withText_iff.2 (Option.isSome_iff_exists.1 hfirst)
          refine ⟨text, htext, next, hnext, texts, htexts, htaken, ?_⟩
          rw [overlaid, overlaid, List.foldl_cons, hnext]
          rfl
      · intro text messages
        rw [Files.run_bind, Files.run_given]
        cases config.withText text with
        | error error => simp
        | ok next =>
          have hrest : ((world.told messages).run (next.loadOver paths)).1 = .ok result ↔ _ := ih
          simpa using hrest

theorem load_ok {world : World} {first : String} {rest : List String} {result : Config} :
    (world.run (load (first :: rest))).1 = .ok result ↔
      ∃ text base texts, world.files.HoldsText first text ∧ parse text = .ok base ∧
        List.Forall₂ world.files.HoldsText (rest.filter world.files.exists?) texts ∧
        (∀ text ∈ texts, (taken? text).isSome) ∧
        result = overlaid { base with home := Files.Path.parent? first } texts := by
  rw [load, Quiet.bind_ok (P := fun config =>
    ∃ texts, List.Forall₂ world.files.HoldsText (rest.filter world.files.exists?) texts ∧
      (∀ text ∈ texts, (taken? text).isSome) ∧ result = config.overlaid texts)
    (Command.quiet_loadFile first) fun _ _ => loadOver_ok]
  simp only [Command.loadFile_ok]
  constructor
  · rintro ⟨_, ⟨text, base, htext, hbase, rfl⟩, texts, htexts⟩
    exact ⟨text, base, texts, htext, hbase, htexts⟩
  · rintro ⟨text, base, texts, htext, hbase, htexts⟩
    exact ⟨_, ⟨text, base, htext, hbase, rfl⟩, texts, htexts⟩

-- ---------------------------------------------------------------------------
-- The law of layers
-- ---------------------------------------------------------------------------

/-- Of all documents that go over a configuration the last one that says something under a key
decides, and without one the configuration itself; only the check is not said by a table that
passes as a date. A text that is refused changes nothing, a text over nothing comes to what it is
by itself unless its document has a table without a value or a check to lose, and files are laid
over one another in this way. -/
theorem overlaid_last_set (config : Config) (texts : List String) :
    let after := config.overlaid texts
    let documents := texts.filterMap taken?
    (last? (Table.get? "schemas") documents).elim (after.schemas = config.schemas)
      (fun value => strings? value = some after.schemas) ∧
    (∀ name, (Table.get? name after.environments).isSome ↔
      (Table.get? name config.environments).isSome ∨
        ∃ document ∈ documents, (environmentTable? name document).isSome) ∧
    (∀ name key, after.value? name key =
      (last? (fun document => (environmentTable? name document).bind
        (SettingsLayer.saidOver? key)) documents).or (config.value? name key)) ∧
    (∀ text, taken? text = none →
      config.withText text = .error .notConfig ∧ config.overlaid [text] = config) ∧
    (∀ text, Config.default.withText text = Config.parse text ↔
      ∀ document, Toml.document? text = some document →
        (Layer.ofEntries SettingsLayer.ofEntries document).isSome →
          Toml.soundEntries document = true ∧ ∀ name entries,
            environmentTable? name document = some entries → ¬LosesCheck entries) ∧
    ∀ (world : World) first rest result,
      (world.run (load (first :: rest))).1 = .ok result ↔
        ∃ text base texts, world.files.HoldsText first text ∧ parse text = .ok base ∧
          List.Forall₂ world.files.HoldsText (rest.filter world.files.exists?) texts ∧
          (∀ text ∈ texts, (taken? text).isSome) ∧
          result = overlaid { base with home := Files.Path.parent? first } texts := by
  refine ⟨schemas_overlaid config texts, isSome_overlaid config texts,
    value?_overlaid config texts, fun text hnone => ⟨withText_of_not_taken hnone, ?_⟩,
    fun text => withText_default_iff, fun world first rest result => load_ok⟩
  obtain ⟨next, hnext, hsame, -⟩ := overlaid_cons config text []
  exact hnext.trans (hsame hnone)

def datedText : String :=
  "[environments.uat]\n\"$__toml_private_datetime\" = \"23:00:00\"\ncheck = false\n"

def datedSettings (check : Bool) : Settings :=
  { Settings.unset with check := check, schemas := [("$__toml_private_datetime", "23:00:00")] }

/-- By itself the document sets the check, over the default configuration it does not. -/
theorem datedText_losesCheck :
    Config.parse datedText = .ok ⟨standardSchemas, [("uat", datedSettings false)], none⟩ ∧
      Config.default.withText datedText =
        .ok ⟨standardSchemas, [("uat", datedSettings true)], none⟩ := by
  decide +kernel

end ViewRollout.Config
