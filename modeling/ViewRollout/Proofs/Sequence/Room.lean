import ViewRollout.Proofs.Sequence.Display

/-!
# Output with little room

`output_within_room`: what is put out of a sequence does not depend on how
much room there is. With less room than it needs it is cut off where the room
ends, and that is the only way in which the output can fail.
-/

namespace ViewRollout.Sequence

open Files Text

variable {world : World} {root : String} {ascii : Bool} {filenames : List String}
variable {x : ExceptT Error (StateM World) Unit} {result : Except Error Unit} {content : Bytes}

/-- What comes of a computation: with an output that takes everything, and with outputs that take
only so many bytes. -/
structure PutsOut (x : ExceptT Error (StateM World) Unit) (world : World)
    (result : Except Error Unit) (content : Bytes) : Prop where
  result_eq : ((world.into (.ofRoom none)).run x).1 = result
  written_eq : ((world.into (.ofRoom none)).run x).2.output.written = content
  cut : ∀ room, ((world.into (.ofRoom (some room))).run x).2.output.written =
    content.take (min room content.length)
  fails_iff : ∀ room, (∃ fault, ((world.into (.ofRoom (some room))).run x).1 =
    .error (.unwritable fault)) ↔ room < content.length
  same : ∀ room, content.length ≤ room → ((world.into (.ofRoom (some room))).run x).1 = result

theorem takes_ofRoom (world : World) (room : Option Nat) (content : Bytes) :
    (world.into (.ofRoom room)).takes content = room.all (content.length ≤ ·) := rfl

theorem written_printed_ofRoom (world : World) (room : Option Nat) (content : Bytes) :
    ((world.into (.ofRoom room)).printed content).output.written =
      (Sink.ofRoom room).fitting content :=
  Sink.written_write (.ofRoom room) content

theorem PutsOut.of_prints (h : Prints (.unwritable .full) x world result content)
    (hne : ∀ fault, result ≠ .error (.unwritable fault)) : PutsOut x world result content where
  result_eq := by
    rw [h, takes_ofRoom]
    rfl
  written_eq := by rw [h, written_printed_ofRoom, Sink.fitting, Sink.ofRoom]
  cut room := by
    rw [h, written_printed_ofRoom, Sink.fitting, Sink.ofRoom]
    exact List.take_eq_take_min
  fails_iff room := by
    rw [h, takes_ofRoom]
    by_cases hroom : content.length ≤ room
    · simp [hroom, hne]
    · simp [hroom, Nat.lt_of_not_le hroom]
  same room hroom := by
    rw [h, takes_ofRoom]
    simp [hroom]

theorem Progress.rest_eq_nil_iff {done : List (String × String)} {rest : List String}
    (h : Progress world.files root ascii filenames done rest) :
    rest = [] ↔
      ∀ filename ∈ filenames, ∃ patch, HasPatch world.files root filename ascii patch := by
  constructor
  · rintro rfl filename hm
    rw [h.split, List.append_nil] at hm
    obtain ⟨p, hp, rfl⟩ := List.mem_map.1 hm
    exact ⟨p.2, h.had p hp⟩
  · intro hall
    cases rest with
    | nil => rfl
    | cons filename rest =>
      obtain ⟨patch, hpatch⟩ := hall filename (by simp [h.split])
      exact absurd hpatch (h.stuck filename rfl patch)

/-- Putting out a sequence without a limit of room ends well exactly when all its patches can be
had, and then the output consists of their blocks in order. Where there is room for a number of
bytes only, the output has what fits of the bytes that it would have otherwise, and the run fails
for want of room exactly when not all of them fit; when they do, it ends as it would otherwise. The
same holds of listing a sequence, which fails in no other way. -/
theorem output_within_room (s : Sequence) (root : String) (ascii : Bool) (world : World) :
    (∃ result content, PutsOut (s.cat root ascii) world result content ∧
      (result = .ok () ↔ ∀ filename ∈ s.filenames,
        ∃ patch, HasPatch world.files root filename ascii patch) ∧
      (result = .ok () ↔ ∃ patches : List (String × String),
        patches.map (·.1) = s.filenames ∧
          (∀ p ∈ patches, HasPatch world.files root p.1 ascii p.2) ∧
          content = patches.flatMap fun p => block p.1 p.2)) ∧
    PutsOut s.list world (.ok ()) (bytes s.listing) := by
  refine ⟨?_, .of_prints (prints_list s world) nofun⟩
  obtain ⟨done, rest, result, hp, hok, hne, hprints⟩ :=
    prints_catPatches world root ascii s.filenames
  refine ⟨result, output done rest, .of_prints hprints hne, ?_, ?_⟩
  · rw [hok, hp.rest_eq_nil_iff]
  · rw [hok]
    constructor
    · rintro rfl
      refine ⟨done, by rw [hp.split, List.append_nil], hp.had, ?_⟩
      simp [output]
    · rintro ⟨patches, hnames, hhad, -⟩
      rw [hp.rest_eq_nil_iff, ← hnames]
      intro filename hm
      obtain ⟨p, hp, rfl⟩ := List.mem_map.1 hm
      exact ⟨p.2, hhad p hp⟩

end ViewRollout.Sequence
