import ViewRollout.Proofs.Sql.Reader
import ViewRollout.Proofs.View.Chain

/-!
# The grammar of chains

A chain is written as comment lines, an introducer and a group for each CTE,
with the body behind it. The grammar is stated here on its own, next to what
the readers of comment lines and of introducers take of a text. In front of a
parenthesis an introducer can be taken apart in one way only; in front of
anything else its end may be taken to be earlier or later.
-/

namespace ViewRollout.View

open Sql Text

-- ---------------------------------------------------------------------------
-- The grammar
-- ---------------------------------------------------------------------------

/-- Blank space and comment lines, each with the line break that ends it. -/
inductive IsInterlude : List Char → Prop where
  | nil : IsInterlude []
  | blank : isBlank c = true → IsInterlude rest → IsInterlude (c :: rest)
  | comment : '\n' ∉ line → IsInterlude rest → IsInterlude ('-' :: '-' :: (line ++ '\n' :: rest))

/-- AS as a whole word with the blank space behind it, or nothing; `rest` is what follows. -/
inductive IsAsWord (rest : List Char) : List Char → Prop where
  | absent : IsAsWord rest []
  | present : Spells ['A', 'S'] word → (∀ c ∈ gap, isBlank c = true) →
      endsWord (gap ++ rest) = true → IsAsWord rest (word ++ gap)

/-- The name of a CTE and what stands between it and the group: the longest word there is, with a
backtick on either side or not, blank space, and AS or not. -/
inductive IsNaming (name rest : List Char) : List Char → Prop where
  | mk : IsTick left → IsWord name → IsTick right → (∀ c ∈ gap, isBlank c = true) →
      IsAsWord rest as → endsWord (right ++ (gap ++ (as ++ rest))) = true →
      IsNaming name rest (left ++ (name ++ (right ++ (gap ++ as))))

/-- What introduces a CTE of the name in front of `rest`. -/
inductive IsIntroducer (name rest : List Char) : Introducer → List Char → Prop where
  | first : Spells ['W', 'I', 'T', 'H'] word → IsGap gap → IsNaming name rest naming →
      IsIntroducer name rest .first (word ++ (gap ++ naming))
  | more : (∀ c ∈ gap, isBlank c = true) → IsNaming name rest naming →
      IsIntroducer name rest .more (',' :: (gap ++ naming))

/-- Past blank space and comment lines the text introduces a CTE of the name. -/
def Introduces (introducer : Introducer) (text name : List Char) : Prop :=
  ∃ gap lead rest, text = gap ++ (lead ++ rest) ∧ IsInterlude gap ∧
    IsIntroducer name rest introducer lead

/-- The text introduces a CTE of the name, and behind `before` the group that it stands for opens
with a parenthesis. -/
def Opens (introducer : Introducer) (text before name inner : List Char) : Prop :=
  ∃ gap lead, text = before ++ '(' :: inner ∧ before = gap ++ lead ∧ IsInterlude gap ∧
    IsIntroducer name ('(' :: inner) introducer lead

/-- A CTE as it stands in a text: what precedes it, what introduces it, and its group. -/
structure Link where
  gap : List Char
  introduction : List Char
  name : List Char
  group : List Char

def Link.written (link : Link) : List Char :=
  link.gap ++ (link.introduction ++ link.group)

def Link.cte (link : Link) : Cte :=
  ⟨String.ofList link.name, String.ofList link.group⟩

/-- The link stands in the text between `front` and `behind`: its group opens with a parenthesis
and ends with the one that closes it in the text. -/
structure Link.Stands (text : List Char) (introducer : Introducer) (front : List Char)
    (link : Link) (behind : List Char) : Prop where
  interlude : IsInterlude link.gap
  introduced : IsIntroducer link.name (link.group ++ behind) introducer link.introduction
  opened : link.group.head? = some '('
  closed : ∃ place,
    closingParen text ((front ++ (link.gap ++ link.introduction)).length + 1) = .ok place ∧
      place + 1 = (front ++ link.written).length

def writtenLinks (links : List Link) : List Char :=
  links.flatMap Link.written

/-- The links stand in the text one behind the other, from `front` up to `rest`. -/
inductive IsChain (text : List Char) :
    Introducer → (front : List Char) → List Link → (rest : List Char) → Prop where
  | nil : IsChain text introducer front [] rest
  | cons : link.Stands text introducer front (writtenLinks links ++ rest) →
      IsChain text .more (front ++ link.written) links rest →
      IsChain text introducer front (link :: links) rest

/-- How the reading of a text ends behind the chain that stands in front of `rest`. -/
def Ends (text : List Char) (introducer : Introducer) (front rest : List Char) :
    Except Defect (List Char) → Prop
  | .ok body => body = trimStart rest ∧ ∀ name, ¬Introduces introducer rest name
  | .error (.noCteBody name) => Introduces introducer rest name.toList ∧
      ∀ before other inner, ¬Opens introducer rest before other inner
  | .error (.unclosedParen offset) => ∃ before name inner, Opens introducer rest before name inner ∧
      offset = byteSize (front ++ before) ∧
      ∀ place, closingParen text ((front ++ before).length + 1) ≠ .ok place
  | .error _ => False

variable {introducer : Introducer} {name text rest inner naming lead : List Char}

-- ---------------------------------------------------------------------------
-- Comment lines
-- ---------------------------------------------------------------------------

/-- What stands behind the end of the line that the text begins in. -/
def afterLine (text : List Char) : List Char :=
  (text.dropWhile (· != '\n')).drop 1

theorem dropComments_true (text : List Char) :
    dropComments true text = dropComments false (afterLine text) := by
  induction text with
  | nil => rfl
  | cons c rest ih =>
    rw [dropComments, if_pos rfl, afterLine, List.dropWhile_cons]
    split
    · rename_i hc
      rw [hc, ih]
      rfl
    · rename_i hc
      rw [Bool.eq_false_iff.2 hc]
      rfl

theorem afterLine_append (h : '\n' ∉ line) (rest : List Char) :
    afterLine (line ++ '\n' :: rest) = rest := by
  have hl : ∀ c ∈ line, (c != '\n') = true := by
    intro c hc
    have hne : c ≠ '\n' := fun he => h (he ▸ hc)
    simpa using hne
  rw [afterLine, List.dropWhile_append_of_pos hl, List.dropWhile_cons_of_neg (by decide),
    List.drop_succ_cons, List.drop_zero]

theorem exists_afterLine (text : List Char) :
    afterLine text = [] ∨ ∃ line, text = line ++ '\n' :: afterLine text ∧ '\n' ∉ line := by
  rw [afterLine]
  cases hd : text.dropWhile (· != '\n') with
  | nil => exact .inl rfl
  | cons c rest =>
    have hhead := List.head?_dropWhile_not (· != '\n') text
    obtain rfl : c = '\n' := by simpa [hd] using hhead
    refine .inr ⟨text.takeWhile (· != '\n'), ?_, fun hm => ?_⟩
    · rw [List.drop_succ_cons, List.drop_zero, ← hd, List.takeWhile_append_dropWhile]
    · exact absurd (List.all_eq_true.1 List.all_takeWhile _ hm) (by decide)

theorem dropComments_blank (hb : isBlank c = true) (rest : List Char) :
    dropComments false (c :: rest) = dropComments false rest := by
  rw [dropComments, if_neg (by decide), if_pos hb]

theorem dropComments_trimStart (text : List Char) :
    dropComments false (trimStart text) = dropComments false text := by
  induction text with
  | nil => rfl
  | cons c rest ih =>
    rw [trimStart, List.dropWhile_cons]
    split
    · rename_i hc
      rw [dropComments_blank hc]
      exact ih
    · rfl

theorem dropComments_dashes (rest : List Char) :
    dropComments false ('-' :: '-' :: rest) = dropComments false (afterLine rest) := by
  have hd : isBlank '-' = false := by decide
  rw [dropComments, if_neg (by decide), if_neg (by simp [hd]), if_pos ⟨rfl, rfl⟩, dropComments,
    if_pos rfl]
  exact dropComments_true rest

theorem dropComments_append_interlude (h : IsInterlude gap) (rest : List Char) :
    dropComments false (gap ++ rest) = dropComments false rest := by
  induction h with
  | nil => rfl
  | blank hb _ ih => rw [List.cons_append, dropComments_blank hb, ih]
  | @comment more line hl _ ih =>
    rw [← ih, List.cons_append, List.cons_append, List.append_assoc, List.cons_append,
      dropComments_dashes, afterLine_append hl]

/-- What is dropped is an interlude, unless the text ends inside a comment. -/
theorem exists_dropComments (text : List Char) :
    dropComments false text = [] ∨
      ∃ gap, text = gap ++ dropComments false text ∧ IsInterlude gap := by
  induction hn : text.length using Nat.strongRecOn generalizing text with
  | _ n ih =>
    cases text with
    | nil => exact .inl rfl
    | cons c rest =>
      by_cases hb : isBlank c = true
      · rw [dropComments_blank hb]
        refine (ih rest.length (by simp [← hn]) rest rfl).imp_right ?_
        rintro ⟨gap, ht, hg⟩
        exact ⟨c :: gap, congrArg (List.cons c) ht, .blank hb hg⟩
      · by_cases hd : c = '-' ∧ rest.head? = some '-'
        · obtain ⟨rfl, hhead⟩ := hd
          obtain ⟨rest, rfl⟩ := List.head?_eq_some_iff.1 hhead
          rw [dropComments_dashes]
          rcases exists_afterLine rest with hnil | ⟨line, hl, hnot⟩
          · rw [hnil]
            exact .inl rfl
          · have hlt : (afterLine rest).length < n := by
              have := congrArg List.length hl
              simp only [List.length_append, List.length_cons] at this hn
              omega
            refine (ih _ hlt (afterLine rest) rfl).imp_right ?_
            rintro ⟨gap, ht, hg⟩
            refine ⟨'-' :: '-' :: (line ++ '\n' :: gap), ?_, .comment hnot hg⟩
            simp only [List.cons_append, List.append_assoc, ← ht, ← hl]
        · refine .inr ⟨[], ?_, .nil⟩
          rw [dropComments, if_neg (by decide), if_neg hb, if_neg hd, List.nil_append]

-- ---------------------------------------------------------------------------
-- Introducers
-- ---------------------------------------------------------------------------

theorem exists_introduced? (h : introduced? text = some (name, rest)) :
    ∃ naming, text = naming ++ rest ∧ IsNaming name rest naming := by
  rw [introduced?, Option.map_eq_some_iff] at h
  obtain ⟨⟨word, after⟩, hname, he⟩ := h
  obtain ⟨rfl, hrest⟩ := Prod.mk.inj he
  obtain ⟨left, right, rfl, hl, hr, hw, hends, -⟩ := name?_eq_some_iff.1 hname
  obtain ⟨gap, hafter, hg⟩ := exists_trimStart after
  cases ha : as? (trimStart after) with
  | none =>
    rw [ha] at hrest
    obtain rfl : trimStart after = rest := hrest
    refine ⟨left ++ (word ++ (right ++ (gap ++ []))), ?_, .mk hl hw hr hg .absent ?_⟩
    · simp only [List.append_assoc, List.append_nil, ← hafter]
    · rwa [List.nil_append, ← hafter]
  | some behind =>
    rw [ha] at hrest
    obtain rfl : trimStart behind = rest := hrest
    obtain ⟨as, has, hspell, hend⟩ := as?_eq_some_iff.1 ha
    obtain ⟨gap', hbehind, hg'⟩ := exists_trimStart behind
    refine ⟨left ++ (word ++ (right ++ (gap ++ (as ++ gap')))), ?_,
      .mk hl hw hr hg (.present hspell hg' (hbehind ▸ hend)) ?_⟩
    · simp only [List.append_assoc, ← hbehind, ← has, ← hafter]
    · rwa [List.append_assoc, ← hbehind, ← has, ← hafter]

theorem head?_paren (inner : List Char) : ('(' :: inner).head?.any isBlank = false := by
  have hb : isBlank '(' = false := by decide
  exact hb

theorem IsAsWord.head (h : IsAsWord ('(' :: inner) as) :
    ∃ c rest, as ++ '(' :: inner = c :: rest ∧ isBlank c = false ∧ c ≠ backtick := by
  cases h with
  | absent => exact ⟨'(', inner, rfl, head?_paren inner, by decide⟩
  | @present word gap hs _ _ =>
    obtain ⟨c, rest, rfl, hc⟩ := hs.head
    have hb : isBlank c = false := hs.head_not_blank (by decide) []
    refine ⟨c, rest ++ gap ++ '(' :: inner, by simp, hb, ?_⟩
    rintro rfl
    exact absurd hc (by decide)

/-- In front of a group everything that belongs to the naming is taken. -/
theorem introduced?_naming (h : IsNaming name ('(' :: inner) naming) :
    introduced? (naming ++ '(' :: inner) = some (name, '(' :: inner) := by
  obtain ⟨hl, hw, hr, hg, ha, hends⟩ := h
  rename_i left right gap as
  obtain ⟨c, rest, hhead, hb, hc⟩ := ha.head
  have htrim : trimStart (gap ++ (as ++ '(' :: inner)) = as ++ '(' :: inner :=
    trimStart_append hg (by rw [hhead]; exact hb)
  have hname : name? (left ++ (name ++ (right ++ (gap ++ (as ++ '(' :: inner))))) =
      some (name, gap ++ (as ++ '(' :: inner)) := by
    refine name?_eq_some_iff.2 ⟨left, right, rfl, hl, hr, hw, hends, fun _ => ?_⟩
    cases gap with
    | nil =>
      rw [List.nil_append, hhead]
      exact fun he => hc (Option.some.inj he)
    | cons d gap =>
      have hd := hg d (List.mem_cons_self ..)
      intro he
      obtain rfl : d = backtick := Option.some.inj he
      exact absurd hd (by decide)
  simp only [List.append_assoc]
  rw [introduced?, hname, Option.map_some]
  simp only [htrim]
  cases ha with
  | absent =>
    have hn : as? ([] ++ '(' :: inner) = none := by
      rw [List.nil_append, as?, keyword?_eq_none (by decide)]
      rfl
    rw [hn]
    rfl
  | @present word gap' hs hg' hend =>
    rw [List.append_assoc, as?_eq_some_iff.2 ⟨word, rfl, hs, hend⟩, Option.map_some,
      trimStart_append hg' (head?_paren inner)]
    rfl

theorem exists_introduced?_naming (h : IsNaming name rest naming) :
    ∃ rest', introduced? (naming ++ rest) = some (name, rest') := by
  obtain ⟨hl, hw, -, -, -, hends⟩ := h
  simp only [List.append_assoc]
  rw [introduced?, name?_tick_append hl hw hends]
  exact ⟨_, rfl⟩

theorem IsNaming.head_not_blank (h : IsNaming name rest naming) (behind : List Char) :
    (naming ++ behind).head?.any isBlank = false := by
  obtain ⟨hl, hw, -, -, -, -⟩ := h
  rw [List.append_assoc, List.append_assoc]
  exact hl.head_not_blank hw _

theorem exists_read? (h : introducer.read? text = some (name, rest)) :
    ∃ lead, text = lead ++ rest ∧ IsIntroducer name rest introducer lead := by
  unfold Introducer.read? at h
  split at h
  · obtain ⟨after, ha, hi⟩ := Option.bind_eq_some_iff.1 h
    obtain ⟨begun, hb, hg⟩ := Option.bind_eq_some_iff.1 ha
    obtain ⟨word, rfl, hw⟩ := keyword?_eq_some_iff.1 hb
    obtain ⟨gap, rfl, hgap, -⟩ := blanks?_eq_some_iff.1 hg
    obtain ⟨naming, rfl, hn⟩ := exists_introduced? hi
    exact ⟨word ++ (gap ++ naming), by simp only [List.append_assoc], .first hw hgap hn⟩
  · rename_i behind
    obtain ⟨gap, hgap, hall⟩ := exists_trimStart behind
    obtain ⟨naming, hnaming, hn⟩ := exists_introduced? h
    refine ⟨',' :: (gap ++ naming), ?_, .more hall hn⟩
    rw [List.cons_append, List.append_assoc, ← hnaming, ← hgap]
  · cases h

theorem read?_eq_introduced? (h : IsIntroducer name rest introducer lead) :
    ∃ naming, IsNaming name rest naming ∧
      introducer.read? (lead ++ rest) = introduced? (naming ++ rest) := by
  cases h with
  | @first word gap naming hw hg hn =>
    refine ⟨naming, hn, ?_⟩
    show ((keyword? ['W', 'I', 'T', 'H'] (word ++ (gap ++ naming) ++ rest)).bind blanks?).bind
      introduced? = introduced? (naming ++ rest)
    rw [List.append_assoc, List.append_assoc, keyword?_append hw, Option.bind_some,
      blanks?_append hg (hn.head_not_blank rest), Option.bind_some]
  | @more gap naming hg hn =>
    refine ⟨naming, hn, ?_⟩
    show introduced? (trimStart (gap ++ naming ++ rest)) = introduced? (naming ++ rest)
    rw [List.append_assoc, trimStart_append hg (hn.head_not_blank rest)]

/-- No introducer begins like blank space or a comment. -/
theorem IsIntroducer.head (h : IsIntroducer name rest introducer lead) :
    ∃ c more, lead = c :: more ∧ isBlank c = false ∧ c ≠ '-' := by
  cases h with
  | @first word gap naming hw _ _ =>
    obtain ⟨c, word, rfl, hf⟩ := hw.head
    refine ⟨c, _, rfl, hw.head_not_blank (by decide) [], ?_⟩
    rintro rfl
    exact absurd hf (by decide)
  | more => exact ⟨',', _, rfl, by decide, by decide⟩

theorem dropComments_eq_self (h : IsIntroducer name rest introducer lead) :
    dropComments false (lead ++ rest) = lead ++ rest := by
  obtain ⟨c, more, rfl, hb, hd⟩ := h.head
  rw [List.cons_append, dropComments, if_neg (by decide), if_neg (by simp [hb]),
    if_neg fun hn => hd hn.1]

theorem exists_of_read? (h : introducer.read? (dropComments false text) = some (name, rest)) :
    ∃ gap lead, text = gap ++ (lead ++ rest) ∧ IsInterlude gap ∧
      IsIntroducer name rest introducer lead := by
  obtain ⟨lead, hw, hi⟩ := exists_read? h
  rcases exists_dropComments text with hnil | ⟨gap, hgap, hg⟩
  · rw [hnil] at hw
    obtain ⟨c, more, rfl, -⟩ := hi.head
    cases hw
  · exact ⟨gap, lead, by rw [← hw, ← hgap], hg, hi⟩

theorem read?_eq_none_iff : introducer.read? (dropComments false text) = none ↔
    ∀ name, ¬Introduces introducer text name := by
  constructor
  · rintro h name ⟨gap, lead, rest, rfl, hg, hi⟩
    obtain ⟨naming, hn, hread⟩ := read?_eq_introduced? hi
    obtain ⟨rest', hsome⟩ := exists_introduced?_naming hn
    rw [dropComments_append_interlude hg, dropComments_eq_self hi, hread, hsome] at h
    cases h
  · intro h
    cases hr : introducer.read? (dropComments false text) with
    | none => rfl
    | some found =>
      obtain ⟨name, rest⟩ := found
      obtain ⟨gap, lead, ht, hg, hi⟩ := exists_of_read? hr
      exact absurd ⟨gap, lead, rest, ht, hg, hi⟩ (h name)

theorem read?_eq_paren_iff :
    introducer.read? (dropComments false text) = some (name, '(' :: inner) ↔
      ∃ before, Opens introducer text before name inner := by
  constructor
  · intro h
    obtain ⟨gap, lead, ht, hg, hi⟩ := exists_of_read? h
    exact ⟨gap ++ lead, gap, lead, by rw [ht, List.append_assoc], rfl, hg, hi⟩
  · rintro ⟨before, gap, lead, rfl, rfl, hg, hi⟩
    obtain ⟨naming, hn, hread⟩ := read?_eq_introduced? hi
    rw [List.append_assoc, dropComments_append_interlude hg, dropComments_eq_self hi, hread,
      introduced?_naming hn]

theorem exists_read?_of_introduces (h : Introduces introducer text name) :
    ∃ rest, introducer.read? (dropComments false text) = some (name, rest) := by
  obtain ⟨gap, lead, rest, rfl, hg, hi⟩ := h
  obtain ⟨naming, hn, hread⟩ := read?_eq_introduced? hi
  obtain ⟨rest', hsome⟩ := exists_introduced?_naming hn
  exact ⟨rest', by
    rw [dropComments_append_interlude hg, dropComments_eq_self hi, hread, hsome]⟩

end ViewRollout.View
