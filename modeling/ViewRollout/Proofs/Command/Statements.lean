import Mathlib.Data.List.Forall2
import ViewRollout.Command.Deploy
import ViewRollout.Proofs.Files.Run
import ViewRollout.Proofs.View.DefinitionOrder

/-!
# The statements that are asked for

Finding the files of views, reading them and making statements of them only
reads and tells. For each of these computations an `_ok` lemma says, in terms
of the files alone, when it succeeds and with what; `statements_ok` puts them
together.
-/

namespace ViewRollout.Command

open Files (Fault Quiet Tree World)
open View (Dependencies)

variable {world : World} {files : Tree} {substitution : Substitution} {held : Dependencies}
variable {path directory statement : String} {paths made : List String} {view : View}
variable {verbose : Bool}

-- ---------------------------------------------------------------------------
-- What the files hold
-- ---------------------------------------------------------------------------

/-- The file at the path is that of the view. -/
def HoldsView (files : Tree) (path : String) (view : View) : Prop :=
  ∃ text, files.HoldsText path text ∧ View.parse text = .ok view

/-- The paths of a directory's SQL files, in the order in which the directory lists them. -/
def Discovered (files : Tree) (directory : String) (paths : List String) : Prop :=
  ∃ listed, files.list directory = .ok listed ∧
    paths = (listed.filter fun entry =>
      entry.2 && Files.Path.extension? entry.1 = some "sql").map
        fun entry => Files.Path.join directory entry.1

theorem Discovered.unique {paths' : List String} (h : Discovered files directory paths)
    (h' : Discovered files directory paths') : paths = paths' := by
  obtain ⟨listed, hlist, rfl⟩ := h
  obtain ⟨listed', hlist', rfl⟩ := h'
  cases hlist.symm.trans hlist'
  rfl

/-- The statement that is made of the view at the path: the view takes in what it reads of the
held ones, and schemas take the places of their names in its text. -/
def StatementAt (files : Tree) (held : Dependencies) (substitution : Substitution)
    (path statement : String) : Prop :=
  ∃ view expanded, HoldsView files path view ∧ held.expand view = .ok expanded ∧
    statement = substitution.apply expanded.render

theorem holdsView_congr {other : Tree} {path' : String}
    (h : other.find? path' = files.find? path) :
    HoldsView other path' view ↔ HoldsView files path view := by
  simp only [HoldsView, Files.holdsText_congr h]

theorem HoldsView.unique {view' : View} (h : HoldsView files path view)
    (h' : HoldsView files path view') : view = view' := by
  obtain ⟨text, ⟨content, hread, hdecode⟩, hparse⟩ := h
  obtain ⟨text', ⟨content', hread', hdecode'⟩, hparse'⟩ := h'
  cases hread.symm.trans hread'
  cases hdecode.symm.trans hdecode'
  exact Except.ok.inj (hparse.symm.trans hparse')

theorem statementAt_congr {other : Tree} {path' : String}
    (h : other.find? path' = files.find? path) :
    StatementAt other held substitution path' statement ↔
      StatementAt files held substitution path statement := by
  simp only [StatementAt, holdsView_congr h]

theorem StatementAt.unique {statement' : String}
    (h : StatementAt files held substitution path statement)
    (h' : StatementAt files held substitution path statement') : statement = statement' := by
  obtain ⟨view, expanded, hview, hexpand, rfl⟩ := h
  obtain ⟨view', expanded', hview', hexpand', rfl⟩ := h'
  obtain rfl := hview.unique hview'
  obtain rfl := Except.ok.inj (hexpand.symm.trans hexpand')
  rfl

/-- Where nothing is held, a view is rendered as it is. -/
theorem statementAt_empty : StatementAt files .empty substitution path statement ↔
    ∃ view, HoldsView files path view ∧ statement = substitution.apply view.render := by
  have hexpand (view expanded : View) :
      Dependencies.empty.expand view = .ok expanded ↔ view = expanded :=
    ⟨Except.ok.inj, fun h => h ▸ rfl⟩
  simp only [StatementAt, hexpand, exists_and_left, exists_eq_left']

/-- The paths that statements are made for: those given, or those found in the working directory.
There is one at least, and all are those of files. -/
structure Inputs (files : Tree) (given paths : List String) : Prop where
  found : given = [] → Discovered files "." paths
  given : given ≠ [] → paths = given
  nonempty : paths ≠ []
  areFiles : ∀ path ∈ paths, files.isFile path = true

/-- The statements that are made for a request: each of its inputs gives one, in their order. What
they may read are the views of the files to take in, added one after the other. -/
inductive Made (files : Tree) (options : DeployRequest) (substitution : Substitution) :
    List String → Prop where
  | mk {paths made : List String} {inlined : List View} {held : Dependencies} :
      Inputs files options.files paths →
      List.Forall₂ (HoldsView files) options.inline inlined →
      Dependencies.insertAll inlined = .ok held →
      List.Forall₂ (StatementAt files held substitution) paths made →
      Made files options substitution made

-- ---------------------------------------------------------------------------
-- Telling
-- ---------------------------------------------------------------------------

theorem quiet_note (verbose : Bool) (text : String) : Quiet (note verbose text) := by
  unfold note
  split
  · exact .lift fun _ => rfl
  · exact .pure ()

theorem run_note (world : World) (verbose : Bool) (text : String) :
    (world.run (note verbose text)).1 = .ok () := by
  unfold note
  split <;> rfl

-- ---------------------------------------------------------------------------
-- Reading views
-- ---------------------------------------------------------------------------

theorem quiet_loadView (path : String) : Quiet (loadView path) := by
  refine .bind (.attempt fun _ => rfl) fun text => ?_
  cases View.parse text with
  | ok view => exact .pure view
  | error defect => exact .throw _

theorem loadView_ok :
    (world.run (loadView path)).1 = .ok view ↔ HoldsView world.files path view := by
  unfold loadView
  rw [Quiet.bind_ok (P := fun text => View.parse text = .ok view) (.attempt fun _ => rfl)]
  · simp only [Files.run_readText_ok, HoldsView]
  · intro text messages
    cases View.parse text <;> simp

theorem quiet_sqlFiles (directory : String) : Quiet (sqlFiles directory) :=
  .bind (.attempt fun _ => rfl) fun _ => .pure _

theorem sqlFiles_ok :
    (world.run (sqlFiles directory)).1 = .ok paths ↔ Discovered world.files directory paths := by
  rw [sqlFiles, Files.run_bind, Files.run_attempt, Files.ask_list, Discovered]
  cases world.files.list directory with
  | error fault => simp
  | ok listed =>
    simp only [Files.run_pure, Except.ok.injEq, exists_eq_left', eq_comm (a := paths)]
    rw [← List.filterMap_eq_map, List.filterMap_filter]
    rfl

theorem ask_withoutFile (world : World) (paths : List String) :
    world.ask (withoutFile paths) = (paths.filter fun path => !world.files.isFile path, world) := by
  induction paths with
  | nil => rfl
  | cons path paths ih =>
    simp only [withoutFile, Files.ask_bind, Files.ask_isFile, ih, Files.ask_pure]
    cases hf : world.files.isFile path <;> simp [hf]

theorem quiet_requireFiles (paths : List String) : Quiet (requireFiles paths) := by
  refine .bind (.lift fun world => by rw [ask_withoutFile]) fun strays => ?_
  cases strays with
  | nil =>
    dsimp only
    split
    · exact .throw _
    · exact .pure ()
  | cons stray strays => exact .throw _

theorem requireFiles_ok :
    (world.run (requireFiles paths)).1 = .ok () ↔
      paths ≠ [] ∧ ∀ path ∈ paths, world.files.isFile path = true := by
  rw [requireFiles, Files.run_bind, Files.run_lift, ask_withoutFile]
  cases hstrays : paths.filter fun path => !world.files.isFile path with
  | nil =>
    have hfiles : ∀ path ∈ paths, world.files.isFile path = true := by
      simpa using List.filter_eq_nil_iff.1 hstrays
    cases paths with
    | nil => simp
    | cons path paths => simpa using hfiles
  | cons stray strays =>
    have hm : stray ∈ paths.filter fun path => !world.files.isFile path := by simp [hstrays]
    rw [List.mem_filter] at hm
    simp only [Files.run_throw, reduceCtorEq, false_iff, not_and]
    intro _ hfiles
    simp [hfiles stray hm.1] at hm

-- ---------------------------------------------------------------------------
-- Holding and making
-- ---------------------------------------------------------------------------

theorem quiet_readDependencies (held : Dependencies) (paths : List String) :
    Quiet (readDependencies held paths) := by
  induction paths generalizing held with
  | nil => exact .pure held
  | cons path paths ih =>
    refine .bind (quiet_loadView path) fun view => ?_
    cases held.insert view with
    | ok next => exact ih next
    | error defect => exact .throw _

theorem readDependencies_ok {result : Dependencies} :
    (world.run (readDependencies held paths)).1 = .ok result ↔
      ∃ views, List.Forall₂ (HoldsView world.files) paths views ∧
        views.foldlM Dependencies.insert held = .ok result := by
  induction paths generalizing held world with
  | nil =>
    simp only [readDependencies, Files.run_pure, List.forall₂_nil_left_iff, exists_eq_left,
      List.foldlM_nil, Except.ok.injEq]
    exact ⟨fun h => h ▸ rfl, Except.ok.inj⟩
  | cons path paths ih =>
    unfold readDependencies
    rw [Quiet.bind_ok (P := fun view => ∃ next, held.insert view = .ok next ∧
      ∃ views, List.Forall₂ (HoldsView world.files) paths views ∧
        views.foldlM Dependencies.insert next = .ok result) (quiet_loadView path)]
    · simp only [loadView_ok]
      constructor
      · rintro ⟨view, hview, next, hinsert, views, hviews, hrest⟩
        exact ⟨view :: views, .cons hview hviews, by rw [List.foldlM_cons, hinsert]; exact hrest⟩
      · rintro ⟨_, hviews, hall⟩
        cases hviews with
        | @cons _ view _ views hview hviews =>
          rw [List.foldlM_cons] at hall
          cases hinsert : held.insert view with
          | error defect => rw [hinsert] at hall; cases hall
          | ok next =>
            rw [hinsert] at hall
            exact ⟨view, hview, next, hinsert, views, hviews, hall⟩
    · intro view messages
      cases held.insert view with
      | error defect => simp
      | ok next =>
        simp only [Except.ok.injEq, exists_eq_left']
        exact ih

theorem quiet_statementOf (held : Dependencies) (substitution : Substitution) (verbose : Bool)
    (path : String) : Quiet (statementOf held substitution verbose path) := by
  refine .bind (quiet_loadView path) fun view => ?_
  cases held.expand view with
  | ok expanded => exact .bind (quiet_note _ _) fun _ => .pure _
  | error defect => exact .throw _

theorem statementOf_ok :
    (world.run (statementOf held substitution verbose path)).1 = .ok statement ↔
      StatementAt world.files held substitution path statement := by
  unfold statementOf
  rw [Quiet.bind_ok (P := fun view => ∃ expanded, held.expand view = .ok expanded ∧
    statement = substitution.apply expanded.render) (quiet_loadView path)]
  · simp only [loadView_ok, StatementAt, exists_and_left]
  · intro view messages
    cases held.expand view with
    | error defect => simp
    | ok expanded =>
      dsimp only
      rw [Quiet.bind_ok (P := fun _ => statement = substitution.apply expanded.render)
        (quiet_note _ _) fun _ _ => by simp [eq_comm]]
      simp [run_note]

theorem quiet_statementsOf (held : Dependencies) (substitution : Substitution) (verbose : Bool)
    (paths : List String) : Quiet (statementsOf held substitution verbose paths) := by
  induction paths with
  | nil => exact .pure []
  | cons path paths ih =>
    exact .bind (quiet_statementOf held substitution verbose path) fun _ =>
      .bind ih fun _ => .pure _

theorem statementsOf_ok :
    (world.run (statementsOf held substitution verbose paths)).1 = .ok made ↔
      List.Forall₂ (StatementAt world.files held substitution) paths made := by
  induction paths generalizing made world with
  | nil => simp [statementsOf, List.forall₂_nil_left_iff, eq_comm]
  | cons path paths ih =>
    unfold statementsOf
    rw [Quiet.bind_ok (P := fun statement => ∃ more,
      List.Forall₂ (StatementAt world.files held substitution) paths more ∧
        made = statement :: more) (quiet_statementOf held substitution verbose path)]
    · simp only [statementOf_ok, List.forall₂_cons_left_iff, exists_and_left]
    · intro statement messages
      rw [Quiet.bind_ok (P := fun more => made = statement :: more)
        (quiet_statementsOf held substitution verbose paths) fun _ _ => by simp [eq_comm]]
      simp only [ih]
      rfl

-- ---------------------------------------------------------------------------
-- All of them
-- ---------------------------------------------------------------------------

variable {options : DeployRequest}

def inputs (given : List String) : ExceptT Failure (StateM World) (List String) :=
  if given.isEmpty then sqlFiles "." else pure given

theorem quiet_inputs (given : List String) : Quiet (inputs given) := by
  unfold inputs
  split
  · exact quiet_sqlFiles "."
  · exact .pure given

theorem inputs_ok {given : List String} :
    (world.run (inputs given)).1 = .ok paths ↔
      (given = [] → Discovered world.files "." paths) ∧ (given ≠ [] → paths = given) := by
  unfold inputs
  cases given with
  | nil => simp [sqlFiles_ok]
  | cons path given => simp [eq_comm]

theorem statements_eq (substitution : Substitution) (options : DeployRequest) (verbose : Bool) :
    statements substitution options verbose = (do
      let paths ← inputs options.files
      requireFiles paths
      let held ← readDependencies .empty options.inline
      note (verbose && !held.isEmpty)
        ("Loaded " ++ toString held.size ++ " dependency views\n")
      statementsOf held substitution verbose paths) := by
  unfold statements inputs
  split <;> rfl

theorem quiet_statements (substitution : Substitution) (options : DeployRequest) (verbose : Bool) :
    Quiet (statements substitution options verbose) := by
  rw [statements_eq]
  exact .bind (quiet_inputs options.files) fun paths => .bind (quiet_requireFiles paths) fun _ =>
    .bind (quiet_readDependencies .empty options.inline) fun held => .bind (quiet_note _ _) fun _ =>
      quiet_statementsOf held substitution verbose paths

theorem statements_ok :
    (world.run (statements substitution options verbose)).1 = .ok made ↔
      Made world.files options substitution made := by
  rw [statements_eq, (quiet_inputs options.files).bind_ok (P := fun paths => paths ≠ [] ∧
    (∀ path ∈ paths, world.files.isFile path = true) ∧ ∃ held, (∃ inlined,
      List.Forall₂ (HoldsView world.files) options.inline inlined ∧
      Dependencies.insertAll inlined = .ok held) ∧
      List.Forall₂ (StatementAt world.files held substitution) paths made)]
  · simp only [inputs_ok]
    constructor
    · rintro ⟨paths, ⟨hfound, hgiven⟩, hne, hall, held, ⟨inlined, hinlined, hheld⟩, hmade⟩
      exact .mk ⟨hfound, hgiven, hne, hall⟩ hinlined hheld hmade
    · rintro ⟨hinputs, hinlined, hheld, hmade⟩
      exact ⟨_, ⟨hinputs.found, hinputs.given⟩, hinputs.nonempty, hinputs.areFiles, _,
        ⟨_, hinlined, hheld⟩, hmade⟩
  · intro paths messages
    rw [(quiet_requireFiles paths).bind_ok (P := fun _ => ∃ held, (∃ inlined,
      List.Forall₂ (HoldsView world.files) options.inline inlined ∧
      Dependencies.insertAll inlined = .ok held) ∧
      List.Forall₂ (StatementAt world.files held substitution) paths made)]
    · constructor
      · rintro ⟨_, hfiles, hrest⟩
        obtain ⟨hne, hall⟩ := requireFiles_ok.1 hfiles
        exact ⟨hne, hall, hrest⟩
      · rintro ⟨hne, hall, hrest⟩
        exact ⟨(), requireFiles_ok.2 ⟨hne, hall⟩, hrest⟩
    · intro _ messages
      rw [(quiet_readDependencies .empty options.inline).bind_ok (P := fun held =>
        List.Forall₂ (StatementAt world.files held substitution) paths made)]
      · simp only [readDependencies_ok]
        rfl
      · intro held messages
        rw [(quiet_note _ _).bind_ok (P := fun _ =>
          List.Forall₂ (StatementAt world.files held substitution) paths made)]
        · simp [run_note]
        · intro _ messages
          exact statementsOf_ok

end ViewRollout.Command
