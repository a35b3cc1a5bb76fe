import ViewRollout.Files.World
import ViewRollout.Proofs.Files.Writing

/-!
# Running in a described world

What a computation gives and which world it leaves, for the ways in which the
computations of this library are put together. A computation that only reads
and tells is `Quiet`: of the world it changes the messages at most.
-/

namespace ViewRollout.Files

variable {ε ε' α β : Type} {world world' : World}

/-- What a computation that cannot fail gives in the world, and the world that it leaves. -/
def World.ask (world : World) (x : StateM World α) : α × World :=
  x world

/-- What a computation gives in the world, and the world that it leaves. -/
def World.run (world : World) (x : ExceptT ε (StateM World) α) : Except ε α × World :=
  world.ask (ExceptT.run x)

-- ---------------------------------------------------------------------------
-- One after the other
-- ---------------------------------------------------------------------------

@[simp] theorem ask_pure (a : α) (world : World) :
    world.ask (pure a : StateM World α) = (a, world) := rfl

theorem ask_bind (x : StateM World α) (f : α → StateM World β) (world : World) :
    world.ask (x >>= f) = (world.ask x).2.ask (f (world.ask x).1) := rfl

@[simp] theorem run_pure (a : α) (world : World) :
    world.run (pure a : ExceptT ε (StateM World) α) = (.ok a, world) := rfl

@[simp] theorem run_throw (error : ε) (world : World) :
    world.run (throw error : ExceptT ε (StateM World) α) = (.error error, world) := rfl

@[simp] theorem run_lift (x : StateM World α) (world : World) :
    world.run (ExceptT.lift x : ExceptT ε (StateM World) α) =
      (.ok (world.ask x).1, (world.ask x).2) := rfl

@[simp] theorem run_given (result : Except ε α) (world : World) :
    world.run (ExceptT.mk (pure result)) = (result, world) := rfl

theorem run_bind (x : ExceptT ε (StateM World) α) (f : α → ExceptT ε (StateM World) β)
    (world : World) :
    world.run (x >>= f) = match world.run x with
      | (.ok a, next) => next.run (f a)
      | (.error error, next) => (.error error, next) := by
  simp only [World.run, World.ask, ExceptT.run, bind, ExceptT.bind, ExceptT.mk, StateT.bind,
    ExceptT.bindCont]
  rcases x world with ⟨_ | _, next⟩ <;> rfl

theorem run_attempt (error : Fault → ε) (x : StateM World (Except Fault α)) (world : World) :
    world.run (attempt error x) = match world.ask x with
      | (.ok a, next) => (.ok a, next)
      | (.error fault, next) => (.error (error fault), next) := by
  simp only [World.run, World.ask, attempt, ExceptT.run, bind, ExceptT.mk, StateT.bind]
  rcases x world with ⟨_ | _, next⟩ <;> rfl

theorem run_adapt (f : ε' → ε) (x : ExceptT ε' (StateM World) α) (world : World) :
    world.run (ExceptT.adapt f x) = match world.run x with
      | (.ok a, next) => (.ok a, next)
      | (.error error, next) => (.error (f error), next) := by
  show (StateT.map _ x world).run = _
  simp only [World.run, World.ask, ExceptT.run, StateT.map, bind]
  rcases x world with ⟨_ | _, next⟩ <;> rfl

theorem bind_ok {x : ExceptT ε (StateM World) α} {f : α → ExceptT ε (StateM World) β} {b : β} :
    world.run (x >>= f) = (.ok b, world') ↔
      ∃ a next, world.run x = (.ok a, next) ∧ next.run (f a) = (.ok b, world') := by
  rw [run_bind]
  rcases world.run x with ⟨_ | a, next⟩
  · simp
  · exact ⟨fun h => ⟨a, next, rfl, h⟩, fun ⟨_, _, hx, hf⟩ => by cases hx; exact hf⟩

theorem adapt_ok {f : ε' → ε} {x : ExceptT ε' (StateM World) α} {a : α} :
    (world.run (ExceptT.adapt f x)).1 = .ok a ↔ (world.run x).1 = .ok a := by
  rw [run_adapt]
  rcases world.run x with ⟨_ | _, next⟩ <;> simp

theorem world_adapt (f : ε' → ε) (x : ExceptT ε' (StateM World) α) (world : World) :
    (world.run (ExceptT.adapt f x)).2 = (world.run x).2 := by
  rw [run_adapt]
  rcases world.run x with ⟨_ | _, next⟩ <;> rfl

theorem adapt_given_bind_ok {f : ε' → ε} {result : Except ε' α}
    {g : α → ExceptT ε (StateM World) β} {b : β} :
    (world.run (ExceptT.adapt f (ExceptT.mk (pure result)) >>= g)).1 = .ok b ↔
      ∃ a, result = .ok a ∧ (world.run (g a)).1 = .ok b := by
  rw [run_bind, run_adapt, run_given]
  cases result <;> simp

-- ---------------------------------------------------------------------------
-- Reading
-- ---------------------------------------------------------------------------

@[simp] theorem ask_isFile (path : String) (world : World) :
    world.ask (Host.isFile path) = (world.files.isFile path, world) := rfl

@[simp] theorem ask_isThere (path : String) (world : World) :
    world.ask (Host.isThere path) = (world.files.exists? path, world) := rfl

@[simp] theorem ask_list (path : String) (world : World) :
    world.ask (Host.list path) = (world.files.list path, world) := rfl

@[simp] theorem ask_readBytes (path : String) (world : World) :
    world.ask (Host.readBytes path) = (world.files.readBytes path, world) := rfl

@[simp] theorem ask_value (name : String) (world : World) :
    world.ask (Host.valueOf? name) = (valueUnder? name world.environment, world) := rfl

@[simp] theorem ask_readText (path : String) (world : World) :
    world.ask (readText path) = ((world.files.readBytes path).bind textOf, world) := rfl

def Tree.HoldsText (files : Tree) (path text : String) : Prop :=
  ∃ content, files.readBytes path = .ok content ∧ Text.decode? content = some text

/-- Two paths that lead to the same content, also in two trees, hold the same text. -/
theorem holdsText_congr {files other : Tree} {path path' text : String}
    (h : other.find? path' = files.find? path) :
    other.HoldsText path' text ↔ files.HoldsText path text := by
  simp only [Tree.HoldsText, Tree.readBytes_ok, h]

theorem textOf_ok {content : Bytes} {text : String} :
    textOf content = .ok text ↔ Text.decode? content = some text := by
  unfold textOf
  split <;> simp_all

theorem run_readText_ok {error : Fault → ε} {path text : String} :
    (world.run (attempt error (readText path))).1 = .ok text ↔
      world.files.HoldsText path text := by
  rw [run_attempt, ask_readText, Tree.HoldsText]
  cases world.files.readBytes path with
  | error fault => simp [Except.bind]
  | ok content =>
    simp only [Except.bind, Except.ok.injEq, exists_eq_left', ← textOf_ok]
    cases textOf content <;> simp

theorem readText_ok {error : Fault → ε} {path text : String} :
    world.run (attempt error (readText path)) = (.ok text, world') ↔
      world.files.HoldsText path text ∧ world' = world := by
  have hw : (world.run (attempt error (readText path))).2 = world := by
    rw [run_attempt, ask_readText]
    cases (world.files.readBytes path).bind textOf <;> rfl
  rw [Prod.ext_iff, run_readText_ok, hw, eq_comm (a := world)]

-- ---------------------------------------------------------------------------
-- Writing
-- ---------------------------------------------------------------------------

theorem ask_writeBytes (path : String) (content : Bytes) (world : World) :
    world.ask (Host.writeBytes path content) = world.writeBytes path content := rfl

theorem Sink.write_append (sink : Sink) (a b : Bytes) :
    sink.write (a ++ b) =
      (((sink.write a).1.write b).1, (sink.write a).2 && ((sink.write a).1.write b).2) := by
  obtain ⟨taken, room⟩ := sink
  cases room with
  | none => simp [Sink.write, Sink.fitting, List.reverseAux_eq]
  | some room =>
    simp only [Sink.write, Sink.fitting, List.reverseAux_eq, List.take_append, List.reverse_append,
      List.append_assoc, List.length_append, Option.map_some, Option.all_some, Nat.sub_add_eq,
      Prod.mk.injEq, true_and, ← Bool.decide_and, decide_eq_decide]
    omega

theorem Sink.write_append_of_full {sink : Sink} {a : Bytes} (h : (sink.write a).2 = false)
    (b : Bytes) : (sink.write (a ++ b)).1 = (sink.write a).1 := by
  obtain ⟨taken, room⟩ := sink
  cases room with
  | none => cases h
  | some room =>
    have hroom : room ≤ a.length := by
      have : ¬a.length ≤ room := by simpa [Sink.write] using h
      omega
    simp only [Sink.write, Sink.fitting, List.take_append, Nat.sub_eq_zero_of_le hroom,
      Nat.sub_eq_zero_of_le (Nat.le_add_right_of_le hroom), List.take_zero, List.append_nil,
      List.length_append, Option.map_some]

def World.printed (world : World) (content : Bytes) : World :=
  { world with output := (world.output.write content).1 }

/-- Whether there is room for the bytes in the output. -/
def World.takes (world : World) (content : Bytes) : Bool :=
  (world.output.write content).2

theorem ask_print_eq (text : String) (world : World) :
    world.ask (Host.print text) =
      (if world.takes (Text.bytes text) then .ok () else .error .full,
        world.printed (Text.bytes text)) := rfl

theorem takes_of_room (h : world.output.room = none) (content : Bytes) :
    world.takes content = true := by
  simp [World.takes, Sink.write, h]

theorem ask_print (h : world.output.room = none) (text : String) :
    world.ask (Host.print text) = (.ok (), world.printed (Text.bytes text)) := by
  rw [ask_print_eq, takes_of_room h, if_pos rfl]

theorem room_printed (h : world.output.room = none) (content : Bytes) :
    (world.printed content).output.room = none := by
  simp [World.printed, Sink.write, h]

theorem printed_nil (world : World) : world.printed [] = world := by
  obtain ⟨files, input, ⟨taken, room⟩, messages, environment⟩ := world
  cases room <;> simp [World.printed, Sink.write, Sink.fitting]

theorem takes_nil (world : World) : world.takes [] = true := by
  simp [World.takes, Sink.write]

theorem printed_printed (world : World) (a b : Bytes) :
    (world.printed a).printed b = world.printed (a ++ b) := by
  simp [World.printed, Sink.write_append]

theorem takes_append (world : World) (a b : Bytes) :
    world.takes (a ++ b) = (world.takes a && (world.printed a).takes b) := by
  simp [World.takes, World.printed, Sink.write_append]

theorem printed_append_of_full {a : Bytes} (h : world.takes a = false) (b : Bytes) :
    world.printed (a ++ b) = world.printed a := by
  rw [World.printed, Sink.write_append_of_full h, World.printed]

theorem printed_inj (h : world.output.room = none) {a b : Bytes} :
    world.printed a = world.printed b ↔ a = b := by
  simp [World.printed, Sink.write, Sink.fitting, h, List.reverseAux_eq]

-- ---------------------------------------------------------------------------
-- What is put out, whatever room there is
-- ---------------------------------------------------------------------------

section Prints

variable {full error : ε} {content more : Bytes}

def World.into (world : World) (sink : Sink) : World :=
  { world with output := sink }

/-- Into any sink the computation puts out this content and gives this result; where the content
does not fit, it puts out what fits and fails as it does when a sink is full. -/
def Prints (full : ε) (x : ExceptT ε (StateM World) α) (world : World) (result : Except ε α)
    (content : Bytes) : Prop :=
  ∀ sink, (world.into sink).run x =
    (if (world.into sink).takes content then result else .error full,
      (world.into sink).printed content)

theorem Prints.of_run {x : ExceptT ε (StateM World) α} {result : Except ε α}
    (h : ∀ sink, (world.into sink).run x = (result, world.into sink)) :
    Prints full x world result [] := by
  intro sink
  rw [h, takes_nil, printed_nil, if_pos rfl]

theorem Prints.bind {x : ExceptT ε (StateM World) α} {f : α → ExceptT ε (StateM World) β}
    {a : α} {result : Except ε β} (hx : Prints full x world (.ok a) content)
    (hf : Prints full (f a) world result more) :
    Prints full (x >>= f) world result (content ++ more) := by
  intro sink
  rw [run_bind, hx, takes_append]
  cases hfits : (world.into sink).takes content with
  | false =>
    rw [printed_append_of_full hfits]
    rfl
  | true =>
    -- What follows runs with the room that the content has left.
    have hnext := hf ((world.into sink).printed content).output
    rw [← printed_printed]
    exact hnext

theorem Prints.bind_error {x : ExceptT ε (StateM World) α} {f : α → ExceptT ε (StateM World) β}
    (hx : Prints full x world (.error error) content) :
    Prints full (x >>= f) world (.error error) content := by
  intro sink
  rw [run_bind, hx]
  cases (world.into sink).takes content <;> rfl

theorem Prints.run_eq {x : ExceptT ε (StateM World) α} {result : Except ε α}
    (h : Prints full x world result content) :
    world.run x = (if world.takes content then result else .error full, world.printed content) :=
  h world.output

end Prints

-- ---------------------------------------------------------------------------
-- What a computation leaves alone
-- ---------------------------------------------------------------------------

section Keeps

variable {γ : Type} {view : World → γ}

/-- The computation leaves alone what the view shows of the world. -/
def Keeps (view : World → γ) (x : ExceptT ε (StateM World) α) : Prop :=
  ∀ world : World, view (world.run x).2 = view world

theorem Keeps.pure (a : α) : Keeps view (Pure.pure a : ExceptT ε (StateM World) α) :=
  fun _ => rfl

theorem Keeps.throw (error : ε) :
    Keeps view (MonadExcept.throw error : ExceptT ε (StateM World) α) :=
  fun _ => rfl

theorem Keeps.given (result : Except ε α) :
    Keeps view (ExceptT.mk (Pure.pure result) : ExceptT ε (StateM World) α) :=
  fun _ => rfl

theorem Keeps.lift {x : StateM World α} (hx : ∀ world : World, view (world.ask x).2 = view world) :
    Keeps view (ExceptT.lift x : ExceptT ε (StateM World) α) :=
  hx

theorem Keeps.bind {x : ExceptT ε (StateM World) α} {f : α → ExceptT ε (StateM World) β}
    (hx : Keeps view x) (hf : ∀ a, Keeps view (f a)) : Keeps view (x >>= f) := by
  intro world
  have hw := hx world
  rw [run_bind]
  generalize world.run x = outcome at hw ⊢
  obtain ⟨_ | a, next⟩ := outcome
  · exact hw
  · exact (hf a next).trans hw

theorem Keeps.attempt {error : Fault → ε} {x : StateM World (Except Fault α)}
    (hx : ∀ world : World, view (world.ask x).2 = view world) :
    Keeps view (ViewRollout.attempt error x) := by
  intro world
  have hw := hx world
  rw [run_attempt]
  generalize world.ask x = outcome at hw ⊢
  obtain ⟨_ | a, next⟩ := outcome <;> exact hw

theorem Keeps.adapt {f : ε' → ε} {x : ExceptT ε' (StateM World) α} (hx : Keeps view x) :
    Keeps view (ExceptT.adapt f x) := by
  intro world
  rw [world_adapt]
  exact hx world

end Keeps

def Still (x : StateM World α) : Prop :=
  ∀ world : World, (world.ask x).2 = world

theorem Still.pure (a : α) : Still (Pure.pure a : StateM World α) :=
  fun _ => rfl

theorem Still.bind {x : StateM World α} {f : α → StateM World β} (hx : Still x)
    (hf : ∀ a, Still (f a)) : Still (x >>= f) := by
  intro world
  rw [ask_bind, hf, hx]

def World.told (world : World) (messages : String) : World :=
  { world with messages := messages }

@[simp] theorem files_told (world : World) (messages : String) :
    (world.told messages).files = world.files := rfl

/-- Of the world the computation changes the messages at most. -/
abbrev Quiet (x : ExceptT ε (StateM World) α) : Prop :=
  Keeps (World.told · "") x

theorem Quiet.exists_told {x : ExceptT ε (StateM World) α} (hx : Quiet x) (world : World) :
    ∃ messages, (world.run x).2 = world.told messages := by
  have hw : (world.run x).2.told "" = world.told "" := hx world
  refine ⟨(world.run x).2.messages, ?_⟩
  show ((world.run x).2.told "").told _ = (world.told "").told _
  rw [hw]

/-- What follows a quiet computation runs in the same world, but for its messages. -/
theorem Quiet.bind_ok {x : ExceptT ε (StateM World) α} {f : α → ExceptT ε (StateM World) β}
    {b : β} {P : α → Prop} (hx : Quiet x)
    (hf : ∀ a messages, ((world.told messages).run (f a)).1 = .ok b ↔ P a) :
    (world.run (x >>= f)).1 = .ok b ↔ ∃ a, (world.run x).1 = .ok a ∧ P a := by
  obtain ⟨messages, hw⟩ := hx.exists_told world
  rw [run_bind]
  generalize world.run x = outcome at hw ⊢
  obtain ⟨result, next⟩ := outcome
  cases result with
  | error error => simp
  | ok a =>
    obtain rfl : next = _ := hw
    simpa using hf a messages

end ViewRollout.Files
