import ViewRollout.Proofs.View.ChainGrammar

/-!
# Reading chains

`readCtes_iff`: the reader takes exactly the texts that the grammar of chains
describes, gives their CTEs and their body, and reports the first introducer
that no group follows and the first group that is not closed. One step of the
reader goes over one link of the chain; the rest is induction on the links.
-/

namespace ViewRollout.View

open Sql Text

variable {introducer : Introducer} {name text rest inner group before front behind : List Char}
variable {link : Link} {links : List Link} {ending : Except Defect (List Char)}

-- ---------------------------------------------------------------------------
-- One step of the reading
-- ---------------------------------------------------------------------------

theorem readChain_of_unclosed
    (h : introducer.read? (dropComments false text) = some (name, '(' :: inner))
    (hg : group? inner = none) (size : Nat) :
    readChain size introducer text = .error (.unclosedParen (size - byteSize ('(' :: inner))) := by
  rw [readChain]
  split
  · simp_all
  · rename_i name' inner' h'
    obtain ⟨rfl, rfl⟩ : name = name' ∧ inner = inner' := by simpa [h] using h'
    split
    · rfl
    · simp_all
  · rename_i hne h'
    obtain ⟨rfl, rfl⟩ := Prod.mk.inj (Option.some.inj (h.symm.trans h'))
    exact absurd rfl (hne _)

theorem readChain_of_no_paren
    (h : introducer.read? (dropComments false text) = some (name, rest))
    (hr : ∀ inner, rest ≠ '(' :: inner) (size : Nat) :
    readChain size introducer text = .error (.noCteBody (String.ofList name)) := by
  rw [readChain]
  split
  · simp_all
  · rename_i name' inner' h'
    obtain ⟨-, rfl⟩ := Prod.mk.inj (Option.some.inj (h.symm.trans h'))
    exact absurd rfl (hr _)
  · rename_i hne h'
    obtain ⟨rfl, -⟩ := Prod.mk.inj (Option.some.inj (h.symm.trans h'))
    rfl

/-- Where the chain ends, the reader ends as the grammar says. -/
theorem readChain_of_ends (ht : text = front ++ rest) (h : Ends text introducer front rest ending) :
    readChain (byteSize text) introducer (trimStart rest) = ending.map ([], ·) := by
  cases ending with
  | ok body =>
    obtain ⟨rfl, hn⟩ := h
    rw [← read?_eq_none_iff, ← dropComments_trimStart] at hn
    exact readChain_of_none hn _
  | error defect =>
    cases defect with
    | noHeader => cases h
    | noFrom view => cases h
    | noCteBody name =>
      obtain ⟨hi, hno⟩ := h
      obtain ⟨behind, hread⟩ := exists_read?_of_introduces hi
      rw [← dropComments_trimStart] at hread
      rw [readChain_of_no_paren hread, String.ofList_toList]
      · rfl
      · rintro inner rfl
        rw [dropComments_trimStart] at hread
        obtain ⟨before, ho⟩ := read?_eq_paren_iff.1 hread
        exact hno before name.toList inner ho
    | unclosedParen offset =>
      obtain ⟨before, name, inner, ho, rfl, hclose⟩ := h
      have hread := read?_eq_paren_iff.2 ⟨before, ho⟩
      obtain ⟨gap, written, rfl, rfl, -, -⟩ := ho
      rw [ht, ← List.append_assoc] at hclose ⊢
      rw [← dropComments_trimStart] at hread
      rw [readChain_of_unclosed hread (group?_eq_none_iff.2 hclose), byteSize_append,
        Nat.add_sub_cancel]
      rfl

theorem Link.Stands.exists_group (ht : text = front ++ (link.written ++ behind))
    (h : link.Stands text introducer front behind) :
    ∃ inner, link.group = '(' :: inner ∧ group? (inner ++ behind) = some (inner, behind) := by
  obtain ⟨gap, introduction, name, group⟩ := link
  obtain ⟨-, -, ho, hc⟩ := h
  obtain ⟨inner, rfl⟩ := List.head?_eq_some_iff.1 ho
  have htext : text = front ++ (gap ++ introduction) ++ '(' :: (inner ++ behind) := by
    rw [ht]
    simp [Link.written]
  have hfront : front ++ (gap ++ (introduction ++ '(' :: inner)) =
      front ++ (gap ++ introduction) ++ '(' :: inner := by simp
  rw [htext, Link.written, hfront] at hc
  exact ⟨inner, rfl, group?_eq_some_iff.2 hc⟩

/-- Over a link of the chain the reader goes on behind it. -/
theorem readChain_of_stands (ht : text = front ++ (link.written ++ behind))
    (h : link.Stands text introducer front behind) (size : Nat) :
    readChain size introducer (trimStart (link.written ++ behind)) =
      (readChain size .more (trimStart behind)).map fun (ctes, body) =>
        (link.cte :: ctes, body) := by
  obtain ⟨inner, hinner, hgroup⟩ := h.exists_group ht
  obtain ⟨gap, introduction, name, group⟩ := link
  obtain ⟨hgap, hi, -, -⟩ := h
  obtain rfl : group = '(' :: inner := hinner
  have hopens : Opens introducer (gap ++ (introduction ++ '(' :: inner) ++ behind)
      (gap ++ introduction) name (inner ++ behind) :=
    ⟨gap, introduction, by simp, rfl, hgap, hi⟩
  have hread := read?_eq_paren_iff.2 ⟨_, hopens⟩
  rw [← dropComments_trimStart] at hread
  exact readChain_of_group hread hgroup size

-- ---------------------------------------------------------------------------
-- The whole chain
-- ---------------------------------------------------------------------------

theorem Introducer.more_behind (ctes : List Cte) : Introducer.more.behind ctes = .more := by
  cases ctes <;> rfl

theorem writtenLinks_cons (link : Link) (links : List Link) :
    writtenLinks (link :: links) = link.written ++ writtenLinks links :=
  List.flatMap_cons

theorem readChain_of_chain (h : IsChain text introducer front links rest)
    (ht : text = front ++ (writtenLinks links ++ rest))
    (he : Ends text (introducer.behind (links.map Link.cte)) (front ++ writtenLinks links) rest
      ending) :
    readChain (byteSize text) introducer (trimStart (writtenLinks links ++ rest)) =
      ending.map (links.map Link.cte, ·) := by
  induction h with
  | nil =>
    refine readChain_of_ends ht ?_
    rwa [writtenLinks, List.flatMap_nil, List.append_nil] at he
  | @cons links rest introducer front link hs _ ih =>
    rw [writtenLinks_cons, List.append_assoc] at ht ⊢
    rw [readChain_of_stands ht hs, ih]
    · cases ending <;> rfl
    · rw [ht, List.append_assoc]
    · rw [Introducer.more_behind, List.append_assoc, ← writtenLinks_cons]
      exact he

/-- What is introduced with a group that is closed is a link of the chain. -/
theorem exists_link (ht : text = front ++ rest) (ho : Opens introducer rest before name inner)
    (hg : group? inner = some (group, behind)) :
    ∃ link : Link, rest = link.written ++ behind ∧
      link.Stands text introducer front behind := by
  obtain ⟨gap, introduction, rfl, rfl, hgap, hi⟩ := ho
  obtain rfl := append_of_group? hg
  refine ⟨⟨gap, introduction, name, '(' :: group⟩, by simp [Link.written], hgap, hi, rfl, ?_⟩
  have htext : text = front ++ (gap ++ introduction) ++ '(' :: (group ++ behind) := by
    rw [ht]
    simp
  have hfront : front ++ (gap ++ (introduction ++ '(' :: group)) =
      front ++ (gap ++ introduction) ++ '(' :: group := by simp
  rw [htext, Link.written, hfront]
  exact group?_eq_some_iff.1 hg

theorem Link.length_pos (h : link.Stands text introducer front behind) :
    0 < link.written.length := by
  obtain ⟨inner, hg⟩ := List.head?_eq_some_iff.1 h.opened
  simp only [Link.written, hg, List.length_append, List.length_cons]
  omega

/-- A text that has no further link ends the reading. -/
theorem exists_ends_or_link (ht : text = front ++ rest) :
    (∃ ending, Ends text introducer front rest ending) ∨
      ∃ (link : Link) (behind : List Char), rest = link.written ++ behind ∧
        link.Stands text introducer front behind := by
  cases hread : introducer.read? (dropComments false rest) with
  | none => exact .inl ⟨.ok (trimStart rest), rfl, read?_eq_none_iff.1 hread⟩
  | some found =>
    obtain ⟨name, after⟩ := found
    by_cases ha : ∃ inner, after = '(' :: inner
    · obtain ⟨inner, rfl⟩ := ha
      obtain ⟨before, ho⟩ := read?_eq_paren_iff.1 hread
      cases hg : group? inner with
      | none =>
        refine .inl ⟨.error (.unclosedParen _), before, name, inner, ho, rfl, ?_⟩
        have htext : text = front ++ before ++ '(' :: inner := by
          obtain ⟨_, _, hrest, -⟩ := ho
          rw [ht, hrest, List.append_assoc]
        rw [htext]
        exact group?_eq_none_iff.1 hg
      | some found =>
        obtain ⟨link, hlink⟩ := exists_link ht ho hg
        exact .inr ⟨link, found.2, hlink⟩
    · refine .inl ⟨.error (.noCteBody (String.ofList name)), ?_, ?_⟩
      · obtain ⟨gap, lead, hrest, hg, hi⟩ := exists_of_read? hread
        rw [String.toList_ofList]
        exact ⟨gap, lead, after, hrest, hg, hi⟩
      · intro before other inner ho
        obtain ⟨-, rfl⟩ := Prod.mk.inj
          (Option.some.inj (hread.symm.trans (read?_eq_paren_iff.2 ⟨before, ho⟩)))
        exact ha ⟨inner, rfl⟩

/-- Every text is a chain, with a rest behind it that ends the reading. -/
theorem exists_chain (ht : text = front ++ rest) :
    ∃ links rest' ending, rest = writtenLinks links ++ rest' ∧
      IsChain text introducer front links rest' ∧
      Ends text (introducer.behind (links.map Link.cte)) (front ++ writtenLinks links) rest'
        ending := by
  induction hn : rest.length using Nat.strongRecOn generalizing rest front introducer with
  | _ n ih =>
    rcases exists_ends_or_link ht with ⟨ending, he⟩ | ⟨link, behind, rfl, hs⟩
    · refine ⟨[], rest, ending, rfl, .nil, ?_⟩
      rw [writtenLinks, List.flatMap_nil, List.append_nil]
      exact he
    · have hlt : behind.length < n := by
        have hpos := Link.length_pos hs
        rw [List.length_append] at hn
        omega
      rw [← List.append_assoc] at ht
      obtain ⟨links, rest, ending, rfl, hc, he⟩ := @ih _ hlt .more behind _ ht rfl
      refine ⟨link :: links, rest, ending, ?_, .cons hs hc, ?_⟩
      · rw [writtenLinks_cons, List.append_assoc]
      · rw [Introducer.more_behind, List.append_assoc, ← writtenLinks_cons] at he
        exact he

theorem readChain_eq_iff {result : Except Defect (List Cte × List Char)} :
    readChain (byteSize text) .first (trimStart text) = result ↔
      ∃ links rest ending, text = writtenLinks links ++ rest ∧
        IsChain text .first [] links rest ∧
        Ends text (Introducer.first.behind (links.map Link.cte)) (writtenLinks links) rest ending ∧
        result = ending.map (links.map Link.cte, ·) := by
  have hnil : text = [] ++ text := rfl
  constructor
  · rintro rfl
    obtain ⟨links, rest, ending, ht, hc, he⟩ := @exists_chain .first _ _ _ hnil
    have hread := readChain_of_chain hc (hnil.trans (congrArg _ ht)) he
    rw [← ht] at hread
    exact ⟨links, rest, ending, ht, hc, he, hread⟩
  · rintro ⟨links, rest, ending, ht, hc, he, rfl⟩
    have hread := readChain_of_chain hc (hnil.trans (congrArg _ ht)) he
    rwa [← ht] at hread

theorem readCtes_eq_error_iff {text : String} {defect : Defect} :
    readCtes text = .error defect ↔ ∃ links rest,
      text.toList = writtenLinks links ++ rest ∧ IsChain text.toList .first [] links rest ∧
      Ends text.toList (Introducer.first.behind (links.map Link.cte)) (writtenLinks links) rest
        (.error defect) := by
  have hread : readCtes text = .error defect ↔
      readChain (byteSize text.toList) .first (trimStart text.toList) = .error defect := by
    rw [readCtes]
    cases readChain (byteSize text.toList) .first (trimStart text.toList) <;> simp [Except.map]
  rw [hread, readChain_eq_iff]
  constructor
  · rintro ⟨links, rest, ending, ht, hc, he, hr⟩
    cases ending with
    | ok body => cases hr
    | error => cases hr; exact ⟨links, rest, ht, hc, he⟩
  · rintro ⟨links, rest, ht, hc, he⟩
    exact ⟨links, rest, .error defect, ht, hc, he, rfl⟩

theorem readCtes_eq_ok_iff {text body : String} {ctes : List Cte} :
    readCtes text = .ok (ctes, body) ↔ ∃ links rest,
      text.toList = writtenLinks links ++ rest ∧ IsChain text.toList .first [] links rest ∧
      (∀ name, ¬Introduces (Introducer.first.behind ctes) rest name) ∧
      ctes = links.map Link.cte ∧ body.toList = trimStart rest := by
  have hread : readCtes text = .ok (ctes, body) ↔
      readChain (byteSize text.toList) .first (trimStart text.toList) =
        .ok (ctes, body.toList) := by
    rw [readCtes]
    cases readChain (byteSize text.toList) .first (trimStart text.toList) with
    | error => simp [Except.map]
    | ok found => simp [Except.map, Prod.ext_iff, ← String.toList_inj]
  rw [hread, readChain_eq_iff]
  constructor
  · rintro ⟨links, rest, ending, ht, hc, he, hr⟩
    cases ending with
    | error => cases hr
    | ok body =>
      obtain ⟨rfl, rfl⟩ := Prod.mk.inj (Except.ok.inj hr)
      exact ⟨links, rest, ht, hc, he.2, rfl, he.1⟩
  · rintro ⟨links, rest, ht, hc, hn, rfl, hb⟩
    exact ⟨links, rest, .ok body.toList, ht, hc, ⟨hb, hn⟩, rfl⟩

/-- The reader takes exactly the grammar and loses nothing: a text is read as a chain and a body
when it is one, and else the first place is reported where it stops being one. -/
theorem readCtes_iff (text : String) :
    (∀ ctes body, readCtes text = .ok (ctes, body) ↔ ∃ links rest,
      text.toList = writtenLinks links ++ rest ∧ IsChain text.toList .first [] links rest ∧
      (∀ name, ¬Introduces (Introducer.first.behind ctes) rest name) ∧
      ctes = links.map Link.cte ∧ body.toList = trimStart rest) ∧
    (∀ name, readCtes text = .error (.noCteBody name) ↔ ∃ links rest,
      text.toList = writtenLinks links ++ rest ∧ IsChain text.toList .first [] links rest ∧
      Introduces (Introducer.first.behind (links.map Link.cte)) rest name.toList ∧
      ∀ before other inner,
        ¬Opens (Introducer.first.behind (links.map Link.cte)) rest before other inner) ∧
    (∀ offset, readCtes text = .error (.unclosedParen offset) ↔ ∃ links rest,
      text.toList = writtenLinks links ++ rest ∧ IsChain text.toList .first [] links rest ∧
      ∃ before name inner,
        Opens (Introducer.first.behind (links.map Link.cte)) rest before name inner ∧
        offset = byteSize (writtenLinks links ++ before) ∧
        ∀ place,
          closingParen text.toList ((writtenLinks links ++ before).length + 1) ≠ .ok place) ∧
    readCtes text ≠ .error .noHeader ∧ ∀ view, readCtes text ≠ .error (.noFrom view) := by
  refine ⟨fun _ _ => readCtes_eq_ok_iff, fun _ => readCtes_eq_error_iff,
    fun _ => readCtes_eq_error_iff, fun h => ?_, fun view h => ?_⟩
  · obtain ⟨_, _, -, -, he⟩ := readCtes_eq_error_iff.1 h
    exact he
  · obtain ⟨_, _, -, -, he⟩ := readCtes_eq_error_iff.1 h
    exact he

end ViewRollout.View
