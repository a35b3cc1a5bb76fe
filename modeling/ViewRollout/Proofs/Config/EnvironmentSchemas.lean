import Mathlib.Data.List.Sort
import ViewRollout.Proofs.Command.Deployment
import ViewRollout.Proofs.Substitution.OnePass

/-!
# The substitution of an environment

`substitution_of_listed`: a configuration has a substitution for an
environment when it has a table for the environment that maps every listed
placeholder, and else the first thing that is missing is reported. The
substitution depends on the listed placeholders and their schemas alone, as a
set (`standsFor_iff`), so two configurations that agree on these substitute
alike, whatever else is in them.
-/

namespace ViewRollout.Config

open Command (Mapped namesIn_ok settings_ok substitution_ok)
open Substitution (StandsFor)

/-- The schema that the configuration gives a placeholder in the environment. -/
def schemaOf? (config : Config) (environment : Environment) (placeholder : String) :
    Option String :=
  (Table.get? environment.name config.environments).bind fun settings =>
    Table.get? placeholder settings.schemas

/-- The configurations list the same placeholders and give them the same schemas in the
environment. -/
structure AgreeOn (environment : Environment) (config other : Config) : Prop where
  listed : ∀ placeholder, placeholder ∈ config.schemas ↔ placeholder ∈ other.schemas
  mapped : ∀ placeholder ∈ config.schemas,
    config.schemaOf? environment placeholder = other.schemaOf? environment placeholder

variable {config other : Config} {environment : Environment} {settings : Settings}
variable {placeholders : List String} {names : List (String × String)} {placeholder : String}

-- ---------------------------------------------------------------------------
-- What is missing
-- ---------------------------------------------------------------------------

theorem settings_eq_error_iff {error : Error} : config.settings environment = .error error ↔
    Table.get? environment.name config.environments = none ∧
      error = .noEnvironment environment := by
  unfold Config.settings
  cases Table.get? environment.name config.environments <;> simp [eq_comm]

theorem namesIn_eq_error_iff {error : Error} :
    namesIn environment settings placeholders = .error error ↔
      ∃ before placeholder after, placeholders = before ++ placeholder :: after ∧
        (∀ earlier ∈ before, ∃ schema, Table.get? earlier settings.schemas = some schema) ∧
        Table.get? placeholder settings.schemas = none ∧
        error = .noSchema environment placeholder := by
  induction placeholders with
  | nil => simp [namesIn]
  | cons first rest ih =>
    rw [namesIn]
    cases hfirst : Table.get? first settings.schemas with
    | none =>
      dsimp only
      constructor
      · intro h
        exact ⟨[], first, rest, rfl, List.forall_mem_nil _, hfirst, (Except.error.inj h).symm⟩
      · rintro ⟨before, placeholder, after, hsplit, hbefore, hnone, rfl⟩
        cases before with
        | nil =>
          obtain ⟨rfl, rfl⟩ := List.cons.inj hsplit
          rfl
        | cons earlier before =>
          obtain ⟨rfl, -⟩ := List.cons.inj hsplit
          obtain ⟨schema, hschema⟩ := hbefore first (List.mem_cons_self ..)
          cases hfirst.symm.trans hschema
    | some schema =>
      dsimp only
      have hmap : (namesIn environment settings rest).map ((first, schema) :: ·) = .error error ↔
          namesIn environment settings rest = .error error := by
        cases namesIn environment settings rest <;> simp [Except.map]
      -- The first placeholder has a schema, so what is reported stands behind it.
      rw [hmap, ih]
      constructor
      · rintro ⟨before, placeholder, after, rfl, hbefore, h⟩
        exact ⟨first :: before, placeholder, after, rfl,
          List.forall_mem_cons.2 ⟨⟨schema, hfirst⟩, hbefore⟩, h⟩
      · rintro ⟨before, placeholder, after, hsplit, hbefore, hnone, h⟩
        cases before with
        | nil =>
          obtain ⟨rfl, -⟩ := List.cons.inj hsplit
          cases hnone.symm.trans hfirst
        | cons earlier before =>
          obtain ⟨rfl, rfl⟩ := List.cons.inj hsplit
          exact ⟨before, placeholder, after, rfl, (List.forall_mem_cons.1 hbefore).2, hnone, h⟩

-- ---------------------------------------------------------------------------
-- What the tokens stand for
-- ---------------------------------------------------------------------------

theorem lookup_reverse_iff (h : Mapped settings placeholders names) {schema : String} :
    names.reverse.lookup placeholder = some schema ↔
      placeholder ∈ placeholders ∧ Table.get? placeholder settings.schemas = some schema := by
  obtain ⟨rfl, hmapped⟩ := h
  have hmem {found : String} (hf : names.reverse.lookup placeholder = some found) :
      (placeholder, found) ∈ names :=
    List.mem_reverse.1 (Table.mem_of_lookup hf)
  constructor
  · intro hf
    exact ⟨List.mem_map_of_mem (hmem hf), hmapped _ (hmem hf)⟩
  · rintro ⟨hp, hschema⟩
    cases hf : names.reverse.lookup placeholder with
    | none =>
      obtain ⟨pair, hpair, rfl⟩ := List.mem_map.1 hp
      have hne := List.lookup_eq_none_iff.1 hf pair (List.mem_reverse.2 hpair)
      simp at hne
    | some found =>
      exact (hmapped _ (hmem hf)).symm.trans hschema

theorem standsFor_iff (h : Mapped settings placeholders names) {token schema : List Char} :
    StandsFor names token schema ↔ ∃ placeholder ∈ placeholders, ∃ value,
      Table.get? placeholder settings.schemas = some value ∧
      token = (placeholderToken placeholder).toList ∧ schema = value.toList := by
  simp only [StandsFor, lookup_reverse_iff h]
  constructor
  · rintro ⟨placeholder, value, ⟨hp, hv⟩, ht, hs⟩
    exact ⟨placeholder, hp, value, hv, ht, hs⟩
  · rintro ⟨placeholder, hp, value, hv, ht, hs⟩
    exact ⟨placeholder, value, ⟨hp, hv⟩, ht, hs⟩

theorem mem_tokens_iff (h : Mapped settings placeholders names) {token : String} :
    token ∈ (Substitution.ofNames names).tokens ↔
      ∃ placeholder ∈ placeholders, token = placeholderToken placeholder := by
  rw [Substitution.tokens, List.mem_mergeSort, Table.keys, List.mem_map]
  simp only [Prod.exists, exists_and_right, exists_eq_right, Substitution.mem_replacements,
    lookup_reverse_iff h]
  constructor
  · rintro ⟨value, placeholder, ⟨hp, -⟩, rfl⟩
    exact ⟨placeholder, hp, rfl⟩
  · rintro ⟨placeholder, hp, rfl⟩
    obtain ⟨hkeys, hmapped⟩ := h
    rw [← hkeys, List.mem_map] at hp
    obtain ⟨pair, hpair, rfl⟩ := hp
    exact ⟨pair.2, pair.1, ⟨hkeys ▸ List.mem_map_of_mem hpair, hmapped pair hpair⟩, rfl⟩

theorem pairwise_tokens (names : List (String × String)) :
    (Substitution.ofNames names).tokens.Pairwise (· < ·) := by
  have hsorted : (Substitution.ofNames names).tokens.Pairwise fun a b => !decide (b < a) := by
    refine List.pairwise_mergeSort (fun a b c hab hbc => ?_) (fun a b => ?_) _
    · simp only [Bool.not_eq_true', decide_eq_false_iff_not] at *
      exact String.le_trans hab hbc
    · simp only [Bool.or_eq_true, Bool.not_eq_true', decide_eq_false_iff_not]
      exact String.le_total a b
  have hdistinct : (Substitution.ofNames names).tokens.Nodup :=
    (List.mergeSort_perm _ _).nodup_iff.2 (Substitution.nodup_keys_replacements names)
  refine (hsorted.and hdistinct).imp fun ⟨hle, hne⟩ => ?_
  simp only [Bool.not_eq_true', decide_eq_false_iff_not] at hle
  by_contra hlt
  exact hne (String.le_antisymm hle hlt)

theorem get?_replacements (h : Mapped settings placeholders names)
    (hp : placeholder ∈ placeholders) :
    Table.get? (placeholderToken placeholder) (Substitution.ofNames names).replacements =
      Table.get? placeholder settings.schemas := by
  have hm := hp
  rw [← h.1, List.mem_map] at hm
  obtain ⟨pair, hpair, rfl⟩ := hm
  have hschema := h.2 pair hpair
  rw [hschema, ← Table.mem_iff_get? (Substitution.nodup_keys_replacements names),
    Substitution.mem_replacements]
  exact ⟨pair.1, (lookup_reverse_iff h).2 ⟨hp, hschema⟩, rfl⟩

-- ---------------------------------------------------------------------------
-- The substitution of a configuration
-- ---------------------------------------------------------------------------

theorem exists_mapped_iff : (∃ names, Mapped settings placeholders names) ↔
    ∀ placeholder ∈ placeholders, ∃ schema,
      Table.get? placeholder settings.schemas = some schema := by
  constructor
  · rintro ⟨names, rfl, hmapped⟩ placeholder hp
    obtain ⟨pair, hpair, rfl⟩ := List.mem_map.1 hp
    exact ⟨pair.2, hmapped pair hpair⟩
  · intro h
    -- The environment is named in a report and plays no other part.
    cases hn : namesIn .uat settings placeholders with
    | ok names => exact ⟨names, namesIn_ok.1 hn⟩
    | error error =>
      obtain ⟨before, placeholder, after, rfl, -, hnone, -⟩ := namesIn_eq_error_iff.1 hn
      obtain ⟨schema, hschema⟩ := h placeholder (by simp)
      cases hnone.symm.trans hschema

theorem substitution_of_none (h : Table.get? environment.name config.environments = none) :
    config.substitution environment = .error (.noEnvironment environment) := by
  rw [Config.substitution, settings_eq_error_iff.2 ⟨h, rfl⟩]

theorem substitution_eq_error_iff {error : Error}
    (h : Table.get? environment.name config.environments = some settings) :
    config.substitution environment = .error error ↔
      namesIn environment settings config.schemas = .error error := by
  rw [Config.substitution, settings_ok.2 h]
  dsimp only
  cases namesIn environment settings config.schemas <;> simp [Except.map]

theorem exists_of_substitution {s : Substitution} (h : config.substitution environment = .ok s) :
    ∃ settings names, Table.get? environment.name config.environments = some settings ∧
      Mapped settings config.schemas names ∧ s = .ofNames names := by
  cases hsettings : Table.get? environment.name config.environments with
  | none => cases (substitution_of_none hsettings).symm.trans h
  | some settings =>
    obtain ⟨names, hnames, hs⟩ := (substitution_ok hsettings).1 h
    exact ⟨settings, names, rfl, hnames, hs⟩

/-- A substitution depends on the listed placeholders and their schemas alone. -/
theorem AgreeOn.substitution {settings' : Settings} (h : AgreeOn environment config other)
    (hother : Table.get? environment.name other.environments = some settings') {s : Substitution}
    (hs : config.substitution environment = .ok s) :
    ∃ s', other.substitution environment = .ok s' ∧ s'.tokens = s.tokens ∧
      ∀ text, s'.apply text = s.apply text := by
  obtain ⟨settings, names, hsettings, hnames, rfl⟩ := exists_of_substitution hs
  have hsame : ∀ placeholder ∈ config.schemas,
      Table.get? placeholder settings.schemas = Table.get? placeholder settings'.schemas := by
    intro placeholder hp
    have hmapped := h.mapped placeholder hp
    rwa [schemaOf?, schemaOf?, hsettings, hother] at hmapped
  obtain ⟨names', hnames'⟩ : ∃ names', Mapped settings' other.schemas names' := by
    refine exists_mapped_iff.2 fun placeholder hp => ?_
    have hp := (h.listed placeholder).2 hp
    rw [← hsame placeholder hp]
    exact exists_mapped_iff.1 ⟨names, hnames⟩ placeholder hp
  refine ⟨.ofNames names', (substitution_ok hother).2 ⟨names', hnames', rfl⟩, ?_, ?_⟩
  · refine (pairwise_tokens names').eq_of_mem_iff (pairwise_tokens names) fun token => ?_
    simp only [mem_tokens_iff hnames, mem_tokens_iff hnames', h.listed]
  · refine Substitution.apply_congr fun token schema => ?_
    rw [standsFor_iff hnames, standsFor_iff hnames']
    constructor
    · rintro ⟨placeholder, hp, value, hv, ht⟩
      exact ⟨placeholder, (h.listed _).1 hp, value, hsame _ hp ▸ hv, ht⟩
    · rintro ⟨placeholder, hp, value, hv, ht⟩
      have hp := (h.listed _).2 hp
      exact ⟨placeholder, hp, value, (hsame _ hp).trans hv, ht⟩

/-- A configuration has no substitution for an environment without a table. Where there is a table,
the first listed placeholder that it does not map is reported, and when it maps all of them the
substitution has the token of each, once and in order, with the schema that the table gives. Two
configurations with a table for the environment that list the same placeholders, in any order and
number, and give them the same schemas have substitutions with the same tokens and the same result
on every text; nothing else in them matters. -/
theorem substitution_of_listed (config : Config) (environment : Environment) :
    (config.substitution environment = .error (.noEnvironment environment) ↔
      Table.get? environment.name config.environments = none) ∧
    (∀ placeholder,
      config.substitution environment = .error (.noSchema environment placeholder) ↔
        ∃ settings before after,
          Table.get? environment.name config.environments = some settings ∧
          config.schemas = before ++ placeholder :: after ∧
          (∀ earlier ∈ before, ∃ schema, Table.get? earlier settings.schemas = some schema) ∧
          Table.get? placeholder settings.schemas = none) ∧
    ((∃ s, config.substitution environment = .ok s) ↔
      ∃ settings, Table.get? environment.name config.environments = some settings ∧
        ∀ placeholder ∈ config.schemas, ∃ schema,
          Table.get? placeholder settings.schemas = some schema) ∧
    (∀ s, config.substitution environment = .ok s →
      s.tokens.Pairwise (· < ·) ∧
      (∀ token, token ∈ s.tokens ↔
        ∃ placeholder ∈ config.schemas, token = placeholderToken placeholder) ∧
      ∀ placeholder ∈ config.schemas,
        Table.get? (placeholderToken placeholder) s.replacements =
          config.schemaOf? environment placeholder) ∧
    ∀ other settings', Table.get? environment.name other.environments = some settings' →
      AgreeOn environment config other → ∀ s, config.substitution environment = .ok s →
        ∃ s', other.substitution environment = .ok s' ∧ s'.tokens = s.tokens ∧
          ∀ text, s'.apply text = s.apply text := by
  refine ⟨?_, fun placeholder => ?_, ?_, fun s hs => ?_, fun other settings' hother h s hs =>
    h.substitution hother hs⟩
  · refine ⟨fun h => ?_, substitution_of_none⟩
    cases hsettings : Table.get? environment.name config.environments with
    | none => rfl
    | some settings =>
      obtain ⟨_, _, _, -, -, -, herror⟩ :=
        namesIn_eq_error_iff.1 ((substitution_eq_error_iff hsettings).1 h)
      cases herror
  · cases hsettings : Table.get? environment.name config.environments with
    | none => simp [substitution_of_none hsettings]
    | some settings =>
      rw [substitution_eq_error_iff hsettings, namesIn_eq_error_iff]
      constructor
      · rintro ⟨before, _, after, hsplit, hbefore, hnone, herror⟩
        cases herror
        exact ⟨settings, before, after, rfl, hsplit, hbefore, hnone⟩
      · rintro ⟨_, before, after, hs, hsplit, hbefore, hnone⟩
        cases hs
        exact ⟨before, placeholder, after, hsplit, hbefore, hnone, rfl⟩
  · constructor
    · rintro ⟨s, hs⟩
      obtain ⟨settings, names, hsettings, hnames, -⟩ := exists_of_substitution hs
      exact ⟨settings, hsettings, exists_mapped_iff.1 ⟨names, hnames⟩⟩
    · rintro ⟨settings, hsettings, hmapped⟩
      obtain ⟨names, hnames⟩ := exists_mapped_iff.2 hmapped
      exact ⟨_, (substitution_ok hsettings).2 ⟨names, hnames, rfl⟩⟩
  · obtain ⟨settings, names, hsettings, hnames, rfl⟩ := exists_of_substitution hs
    refine ⟨pairwise_tokens names, fun token => mem_tokens_iff hnames, fun placeholder hp => ?_⟩
    rw [get?_replacements hnames hp, schemaOf?, hsettings, Option.bind_some]

def mappedSettings : Settings :=
  { Settings.unset with schemas := [("w", "dw"), ("unlisted", "u"), ("r", "[w]")] }

/-- Another order, a placeholder listed twice, another environment and other settings. -/
theorem substitution_of_listed_reordered :
    let config : Config := ⟨["r", "w"], [("uat", mappedSettings)], none⟩
    let settings : Settings :=
      { Settings.unset with port := some 1, schemas := [("r", "[w]"), ("w", "dw")] }
    let other : Config :=
      ⟨["w", "r", "w"], [("prod", mappedSettings), ("uat", settings)], some "home"⟩
    ∃ s s', config.substitution .uat = .ok s ∧ other.substitution .uat = .ok s' ∧
      s.apply "[w].t [r].[u]" = "dw.t [w].[u]" ∧ s'.tokens = s.tokens ∧
      ∀ text, s'.apply text = s.apply text := by
  intro config settings other
  have hagree : AgreeOn .uat config other := by
    constructor
    · intro placeholder
      simp [config, other]
      tauto
    · decide
  have hs : config.substitution .uat =
      .ok (.ofNames [("r", "[w]"), ("w", "dw")]) := by decide
  obtain ⟨s', hs', htokens, happly⟩ :=
    (substitution_of_listed config .uat).2.2.2.2 other settings rfl hagree _ hs
  exact ⟨_, s', hs, hs', by decide +kernel, htokens, happly⟩

end ViewRollout.Config
