import ViewRollout.Command.Question
import ViewRollout.Proofs.Files.Run
import ViewRollout.Proofs.Text.LowerCase

/-!
# What a person agrees to

`agrees_first_answer`: a question is answered by the first line of the input
that is a beginning of `yes` or of `no`, and by no when there is none. Lines
that say neither are passed over, so nothing but such a line means yes. One
step of the asking reads one line, which decides (`answered_of_decides`) or is
passed over (`answered_of_not_decides`); `Heard` is what the steps come to, and
by induction on the lines every asking comes to it (`exists_heard`).
-/

namespace ViewRollout.Command

open Files (Fault World)
open Text

def newline : UInt8 := 0x0A

/-- The lines of an input, each with the newline that ends it; the last one may do without. -/
inductive LinesOf : Bytes → List Bytes → Prop where
  | nil : LinesOf [] []
  | last {line : Bytes} : line ≠ [] → newline ∉ line → LinesOf line [line]
  | cons {line rest : Bytes} {lines : List Bytes} : newline ∉ line → LinesOf rest lines →
      LinesOf (line ++ newline :: rest) ((line ++ [newline]) :: lines)

def answerWord : Bool → List Char
  | true => ['y', 'e', 's']
  | false => ['n', 'o']

/-- Trimmed and in lower case the text is a beginning of the word, and not empty. -/
def Answers (text : String) (yes : Bool) : Prop :=
  ∃ low, LowerCase (trim text.toList) low ∧ low ≠ [] ∧ low <+: answerWord yes

/-- A line that ends the asking: an answer, or bytes that are no text. -/
inductive Decides (line : Bytes) : Except Fault Bool → Prop where
  | answer {text : String} {yes : Bool} : decode? line = some text → Answers text yes →
      Decides line (.ok yes)
  | notText : decode? line = none → Decides line (.error .notText)

/-- The asking goes through these lines to this result, with the lines that it leaves unread and
the number of cues that it has printed: one before each line that is read, and one at the end of
the input when no line decides. -/
inductive Heard (lines : List Bytes) : Except Fault Bool → List Bytes → Nat → Prop where
  | decided {before after : List Bytes} {line : Bytes} {result : Except Fault Bool} :
      lines = before ++ line :: after → (∀ earlier ∈ before, ∀ other, ¬Decides earlier other) →
      Decides line result → Heard lines result after (before.length + 1)
  | silence : (∀ line ∈ lines, ∀ other, ¬Decides line other) →
      Heard lines (.ok false) [] (lines.length + 1)

def cues (count : Nat) : Bytes :=
  (List.replicate count (bytes ">> ")).flatten

variable {text : String} {yes : Bool} {line input : Bytes} {lines : List Bytes} {world : World}

-- ---------------------------------------------------------------------------
-- Lines
-- ---------------------------------------------------------------------------

theorem inputLines_append (h : newline ∉ line) (begun rest : Bytes) :
    Files.inputLines begun (line ++ rest) = Files.inputLines (line.reverse ++ begun) rest := by
  induction line generalizing begun with
  | nil => rfl
  | cons b line ih =>
    obtain ⟨hb, hline⟩ := not_or.1 (mt List.mem_cons.2 h)
    have hne : ¬b = 0x0A := Ne.symm hb
    rw [List.cons_append, Files.inputLines, if_neg hne, ih hline, List.reverse_cons,
      List.append_assoc, List.singleton_append]

theorem linesOf_inputLines {begun : Bytes} (h : newline ∉ begun) (input : Bytes) :
    LinesOf (begun.reverse ++ input) (Files.inputLines begun input) := by
  induction input generalizing begun with
  | nil =>
    rw [Files.inputLines, List.append_nil]
    split
    · rename_i hb
      rw [hb]
      exact .nil
    · rename_i hb
      exact .last (List.reverse_ne_nil_iff.2 hb) (mt List.mem_reverse.1 h)
  | cons b rest ih =>
    rw [Files.inputLines]
    split
    · rename_i hb
      subst hb
      rw [List.reverse_cons]
      exact .cons (mt List.mem_reverse.1 h) (@ih [] List.not_mem_nil)
    · rename_i hb
      have hnot : newline ∉ b :: begun := List.not_mem_cons_of_ne_of_not_mem (Ne.symm hb) h
      have hnext := ih hnot
      rwa [List.reverse_cons, List.append_assoc, List.singleton_append] at hnext

theorem linesOf_iff : LinesOf input lines ↔ Files.inputLines [] input = lines := by
  constructor
  · intro h
    induction h with
    | nil => rfl
    | @last line hne hline =>
      have hlast := inputLines_append hline [] []
      rw [List.append_nil, List.append_nil] at hlast
      rw [hlast, Files.inputLines, if_neg (List.reverse_ne_nil_iff.2 hne), List.reverse_reverse]
    | @cons line rest lines hline _ ih =>
      have hend : newline = 0x0A := rfl
      rw [inputLines_append hline, List.append_nil, Files.inputLines, if_pos hend, ih,
        List.reverse_cons, List.reverse_reverse]
  · rintro rfl
    exact linesOf_inputLines List.not_mem_nil input

-- ---------------------------------------------------------------------------
-- Answers
-- ---------------------------------------------------------------------------

theorem isPlainSmall_answerWord (yes : Bool) : ∀ d ∈ answerWord yes, IsPlainSmall d := by
  have hall : (answerWord yes).all (decide <| IsPlainSmall ·) = true := by cases yes <;> decide
  exact fun d hd => of_decide_eq_true (List.all_eq_true.1 hall d hd)

/-- Which small sigma a text has in lower case does not matter. -/
theorem answers_iff {low : List Char} (h : LowerCase (trim text.toList) low) :
    Answers text yes ↔ low ≠ [] ∧ low <+: answerWord yes := by
  refine ⟨?_, fun ⟨hne, hp⟩ => ⟨low, h, hne, hp⟩⟩
  rintro ⟨other, ho, hne, hp⟩
  rw [Ne, ho.eq_nil_iff] at hne
  rw [ho.isPrefix_iff (isPlainSmall_answerWord yes)] at hp
  rw [Ne, h.eq_nil_iff, h.isPrefix_iff (isPlainSmall_answerWord yes)]
  exact ⟨hne, hp⟩

theorem answer?_eq_some_iff : answer? text = some yes ↔ Answers text yes := by
  obtain ⟨low, h⟩ := exists_lowerCase (trim text.toList)
  rw [answers_iff h, Ne, h.eq_nil_iff, h.isPrefix_iff (isPlainSmall_answerWord yes), answer?]
  generalize trim text.toList = trimmed
  cases trimmed with
  | nil => simp
  | cons c rest =>
    have hne : (c :: rest).map Char.toLower ≠ [] := by simp
    generalize (c :: rest).map Char.toLower = word at hne ⊢
    -- No character begins both words.
    have hboth : word <+: answerWord false → ¬word <+: answerWord true := by
      intro hno hyes
      obtain ⟨d, word, rfl⟩ := List.exists_cons_of_ne_nil hne
      have hn := (List.cons_prefix_cons.1 hno).1
      have hy := (List.cons_prefix_cons.1 hyes).1
      exact absurd (hn.symm.trans hy) (by decide)
    rw [if_neg hne]
    simp only [List.isPrefixOf_iff_prefix]
    by_cases hno : word <+: answerWord false
    · rw [if_pos (show word <+: ['n', 'o'] from hno)]
      cases yes <;> simp [hno, hboth hno]
    · rw [if_neg (show ¬word <+: ['n', 'o'] from hno)]
      by_cases hyes : word <+: answerWord true
      · rw [if_pos (show word <+: ['y', 'e', 's'] from hyes)]
        cases yes <;> simp [hno, hyes]
      · rw [if_neg (show ¬word <+: ['y', 'e', 's'] from hyes)]
        cases yes <;> simp [hno, hyes]

theorem not_decides_iff (h : decode? line = some text) :
    (∀ result, ¬Decides line result) ↔ answer? text = none := by
  constructor
  · intro hn
    cases ha : answer? text with
    | none => rfl
    | some yes => exact absurd (.answer h (answer?_eq_some_iff.1 ha)) (hn (.ok yes))
  · intro hn result hd
    cases hd with
    | answer h' ha =>
      obtain rfl := Option.some.inj (h.symm.trans h')
      cases hn.symm.trans (answer?_eq_some_iff.2 ha)
    | notText h' => cases h.symm.trans h'

theorem Decides.unique {result result' : Except Fault Bool} (h : Decides line result)
    (h' : Decides line result') : result' = result := by
  cases h with
  | @answer text yes ht ha =>
    cases h' with
    | @answer text' yes' ht' ha' =>
      obtain rfl := Option.some.inj (ht.symm.trans ht')
      rw [Option.some.inj ((answer?_eq_some_iff.2 ha').symm.trans (answer?_eq_some_iff.2 ha))]
    | notText hn => cases ht.symm.trans hn
  | notText hn =>
    cases h' with
    | answer ht => cases ht.symm.trans hn
    | notText => rfl

-- ---------------------------------------------------------------------------
-- One line after the other
-- ---------------------------------------------------------------------------

section Steps

variable {result result' : Except Fault Bool} {unread unread' : List Bytes} {count count' : Nat}

theorem heard_nil_iff : Heard [] result unread count ↔ result = .ok false ∧ unread = [] ∧
    count = 1 := by
  constructor
  · intro h
    cases h with
    | decided hsplit => cases (List.append_eq_nil_iff.1 hsplit.symm).2
    | silence => exact ⟨rfl, rfl, rfl⟩
  · rintro ⟨rfl, rfl, rfl⟩
    exact .silence nofun

theorem heard_cons_iff : Heard (line :: lines) result unread count ↔
    (Decides line result ∧ unread = lines ∧ count = 1) ∨
      (∀ other, ¬Decides line other) ∧ ∃ more, Heard lines result unread more ∧
        count = more + 1 := by
  constructor
  · intro h
    cases h with
    | @decided before _ last _ hsplit hbefore hlast =>
      cases before with
      | nil =>
        obtain ⟨rfl, rfl⟩ := List.cons.inj hsplit
        exact .inl ⟨hlast, rfl, rfl⟩
      | cons first before =>
        obtain ⟨rfl, hrest⟩ := List.cons.inj hsplit
        obtain ⟨hfirst, hbefore⟩ := List.forall_mem_cons.1 hbefore
        exact .inr ⟨hfirst, _, .decided hrest hbefore hlast, rfl⟩
    | silence hall =>
      obtain ⟨hfirst, hall⟩ := List.forall_mem_cons.1 hall
      exact .inr ⟨hfirst, _, .silence hall, rfl⟩
  · rintro (⟨hline, hunread, rfl⟩ | ⟨hline, more, h, rfl⟩)
    · have hsplit : line :: lines = [] ++ line :: unread := by rw [hunread, List.nil_append]
      exact .decided hsplit nofun hline
    · cases h with
      | @decided before _ last _ hsplit hbefore hlast =>
        have hsplit : line :: lines = line :: before ++ last :: unread := congrArg _ hsplit
        exact .decided hsplit (List.forall_mem_cons.2 ⟨hline, hbefore⟩) hlast
      | silence hall => exact .silence (List.forall_mem_cons.2 ⟨hline, hall⟩)

theorem Heard.unique (h : Heard lines result unread count)
    (h' : Heard lines result' unread' count') :
    result' = result ∧ unread' = unread ∧ count' = count := by
  induction lines generalizing count count' with
  | nil =>
    obtain ⟨rfl, rfl, rfl⟩ := heard_nil_iff.1 h
    exact heard_nil_iff.1 h'
  | cons line lines ih =>
    rcases heard_cons_iff.1 h with ⟨hline, rfl, rfl⟩ | ⟨hline, more, hmore, rfl⟩
    · rcases heard_cons_iff.1 h' with ⟨hline', rfl, rfl⟩ | ⟨hline', -⟩
      · exact ⟨hline.unique hline', rfl, rfl⟩
      · exact absurd hline (hline' _)
    · rcases heard_cons_iff.1 h' with ⟨hline', -⟩ | ⟨-, more', hmore', rfl⟩
      · exact absurd hline' (hline _)
      · obtain ⟨hr, hu, rfl⟩ := ih hmore hmore'
        exact ⟨hr, hu, rfl⟩

end Steps

-- ---------------------------------------------------------------------------
-- The asking
-- ---------------------------------------------------------------------------

theorem cues_succ (count : Nat) : cues (count + 1) = bytes ">> " ++ cues count := by
  rw [cues, List.replicate_succ, List.flatten_cons, cues]

/-- Where the content fits, the asking comes to the result, with the content put out and the unread
lines left as the input; else it fails for want of room, with what fits put out. -/
structure Outcome (answered : Except Fault Bool × World) (world : World) (content : Bytes)
    (result : Except Fault Bool) (unread : List Bytes) : Prop where
  fits : world.takes content = true →
    answered = (result, { world.printed content with input := unread.flatten })
  full : world.takes content = false →
    answered.1 = .error .full ∧ answered.2.output = (world.printed content).output

section Outcome

variable {answer : Except Fault Bool × World} {front content : Bytes}
variable {result : Except Fault Bool} {unread : List Bytes}

theorem Outcome.of_eq (h : world.takes content = true)
    (hanswer : answer = (result, { world.printed content with input := unread.flatten })) :
    Outcome answer world content result unread :=
  ⟨fun _ => hanswer, fun hfull => absurd hfull (by simp [h])⟩

theorem Outcome.behind (hfront : world.takes front = true)
    (h : Outcome answer (world.printed front) content result unread) :
    Outcome answer world (front ++ content) result unread := by
  have htakes : world.takes (front ++ content) = (world.printed front).takes content := by
    rw [Files.takes_append, hfront, Bool.true_and]
  constructor
  · rw [htakes, ← Files.printed_printed]
    exact h.fits
  · rw [htakes, ← Files.printed_printed]
    exact h.full

theorem Outcome.of_full (hfront : world.takes front = false) (input : Bytes) :
    Outcome (.error .full, { world.printed front with input := input }) world (front ++ content)
      result unread := by
  have htakes : world.takes (front ++ content) = false := by
    rw [Files.takes_append, hfront, Bool.false_and]
  refine ⟨fun h => ?_, fun _ => ⟨rfl, ?_⟩⟩
  · rw [htakes] at h
    cases h
  · rw [Files.printed_append_of_full hfront]

end Outcome

/-- What the lines come to, when an end of the input without an answer means no. -/
def answered (lines : List Bytes) (world : World) : Except Fault Bool × World :=
  let (result, after) := World.queryLines ">> " answer? lines world
  (result.map (·.getD false), after)

theorem answered_of_full (h : world.takes (bytes ">> ") = false) (lines : List Bytes) :
    answered lines world =
      (.error .full, { world.printed (bytes ">> ") with input := lines.flatten }) := by
  have hprint := Files.ask_print_eq ">> " world
  rw [h, if_neg (by decide)] at hprint
  rw [answered, World.queryLines, show world.print ">> " = _ from hprint]
  rfl

theorem answered_nil (h : world.takes (bytes ">> ") = true) :
    answered [] world = (.ok false, { world.printed (bytes ">> ") with input := [] }) := by
  have hprint := Files.ask_print_eq ">> " world
  rw [h, if_pos rfl] at hprint
  rw [answered, World.queryLines, show world.print ">> " = _ from hprint]
  rfl

theorem answered_of_decides {result : Except Fault Bool} (h : world.takes (bytes ">> ") = true)
    (hline : Decides line result) (lines : List Bytes) :
    answered (line :: lines) world =
      (result, { world.printed (bytes ">> ") with input := lines.flatten }) := by
  have hprint := Files.ask_print_eq ">> " world
  rw [h, if_pos rfl] at hprint
  rw [answered, World.queryLines, show world.print ">> " = _ from hprint]
  cases hline with
  | answer ht ha =>
    simp only [textOf, ht, answer?_eq_some_iff.2 ha]
    rfl
  | notText ht =>
    simp only [textOf, ht]
    rfl

theorem answered_of_not_decides (h : world.takes (bytes ">> ") = true)
    (hline : ∀ other, ¬Decides line other) (lines : List Bytes) :
    answered (line :: lines) world = answered lines (world.printed (bytes ">> ")) := by
  have hprint := Files.ask_print_eq ">> " world
  rw [h, if_pos rfl] at hprint
  rw [answered, World.queryLines, show world.print ">> " = _ from hprint]
  cases ht : decode? line with
  | none => exact absurd (.notText ht) (hline _)
  | some text =>
    simp only [textOf, ht, (not_decides_iff ht).1 hline]
    rfl

theorem exists_heard (lines : List Bytes) (world : World) :
    ∃ result unread count, Heard lines result unread count ∧
      Outcome (answered lines world) world (cues count) result unread := by
  have hone : bytes ">> " = cues 1 := (List.append_nil _).symm
  -- A cue is printed before each line, so the world is another one for the lines that follow.
  induction lines generalizing world with
  | nil =>
    refine ⟨.ok false, [], 1, heard_nil_iff.2 ⟨rfl, rfl, rfl⟩, ?_⟩
    cases hcue : world.takes (bytes ">> ") with
    | false => exact answered_of_full hcue [] ▸ .of_full hcue _
    | true => exact hone ▸ .of_eq hcue (answered_nil hcue)
  | cons line lines ih =>
    by_cases hline : ∃ decided, Decides line decided
    · obtain ⟨decided, hline⟩ := hline
      refine ⟨decided, lines, 1, heard_cons_iff.2 (.inl ⟨hline, rfl, rfl⟩), ?_⟩
      cases hcue : world.takes (bytes ">> ") with
      | false => exact answered_of_full hcue (line :: lines) ▸ .of_full hcue _
      | true => exact hone ▸ .of_eq hcue (answered_of_decides hcue hline lines)
    · have hline := not_exists.1 hline
      obtain ⟨result, unread, more, hmore, hrest⟩ := ih (world.printed (bytes ">> "))
      refine ⟨result, unread, more + 1, heard_cons_iff.2 (.inr ⟨hline, more, hmore, rfl⟩), ?_⟩
      rw [cues_succ]
      cases hcue : world.takes (bytes ">> ") with
      | false => exact answered_of_full hcue (line :: lines) ▸ .of_full hcue _
      | true => exact .behind hcue (answered_of_not_decides hcue hline lines ▸ hrest)

theorem run_agrees (question : String) (world : World) :
    world.run (agrees question) =
      if world.takes (bytes (question ++ "\n")) then
        answered (Files.inputLines [] world.input) (world.printed (bytes (question ++ "\n")))
      else (.error .full, world.printed (bytes (question ++ "\n"))) := by
  rw [agrees, Files.run_bind, Files.run_attempt, Files.ask_print_eq]
  cases world.takes (bytes (question ++ "\n")) with
  | false => rfl
  | true =>
    have hquery (next : World) : next.ask (Host.query ">> " answer?) =
        World.queryLines ">> " answer? (Files.inputLines [] next.input) next := rfl
    simp only [if_true]
    rw [Files.run_bind, Files.run_attempt, hquery, answered]
    have hinput : (world.printed (bytes (question ++ "\n"))).input = world.input := rfl
    rw [hinput]
    generalize World.queryLines ">> " answer? (Files.inputLines [] world.input) _ = asked
    obtain ⟨_ | _, next⟩ := asked <;> rfl

/-- A question is settled by the first line of the input that is no text or, trimmed and in lower
case, is a beginning of `yes` or of `no` without being empty; when no line is, the answer is no.
The asking always ends: the bytes up to and with that line are used up, and the question and a cue
for each line that is read are put out, and one more at the end of the input. Nothing else in the
world changes. Where this does not fit into the output, what fits is put out, and there is no
answer. -/
theorem agrees_first_answer (question : String) (world : World) :
    ∃ lines result unread count, LinesOf world.input lines ∧ Heard lines result unread count ∧
      (∀ lines' result' unread' count', LinesOf world.input lines' →
        Heard lines' result' unread' count' →
          result' = result ∧ unread' = unread ∧ count' = count) ∧
      Outcome (world.run (agrees question)) world (bytes (question ++ "\n") ++ cues count) result
        unread := by
  have hlines : LinesOf world.input (Files.inputLines [] world.input) := linesOf_iff.2 rfl
  obtain ⟨result, unread, count, hheard, houtcome⟩ :=
    exists_heard (Files.inputLines [] world.input) (world.printed (bytes (question ++ "\n")))
  refine ⟨_, result, unread, count, hlines, hheard, ?_, ?_⟩
  · intro lines' result' unread' count' hlines' hheard'
    rw [← linesOf_iff.1 hlines'] at hheard'
    exact hheard.unique hheard'
  · rw [run_agrees]
    cases hfits : world.takes (bytes (question ++ "\n")) with
    | false => exact .of_full hfits world.input
    | true => exact .behind hfits houtcome

/-- A word that goes on behind `yes` says nothing, nor does a full-width letter; the last line needs
no newline. -/
example :
    let world : World := ⟨.empty, bytes "\nyesno\n Ｙ\n yE", .ofRoom none, "", []⟩
    (world.run (agrees "Go?")).1.toOption = some true := by
  decide +kernel

end ViewRollout.Command
