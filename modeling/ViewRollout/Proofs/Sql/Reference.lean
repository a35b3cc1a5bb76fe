import ViewRollout.Sql.Reference
import ViewRollout.Proofs.Sql.Cursor

/-!
# References in a text

`mem_references_iff`: the references found in a text are those that stand in
it, written as `[qualifier].name` with nothing of the name left behind, their
first bracket code. No reference reaches into another one, since a reference
holds no second `[`.
-/

namespace ViewRollout.Sql

variable {qualifier name back text : List Char} {marks : List Marked} {place : Nat}

def Reference.written (r : Reference) : List Char :=
  '[' :: (r.qualifier ++ ']' :: '.' :: r.name)

theorem Reference.stop_eq (r : Reference) : r.stop = r.start + r.written.length := by
  simp only [Reference.stop, Reference.written, List.length_cons, List.length_append]
  omega

/-- A qualifier without brackets, and a name that is an identifier. -/
structure Qualifies (qualifier name : List Char) : Prop where
  qualifier : ∀ c ∈ qualifier, isBracket c = false
  nonempty : name ≠ []
  name : ∀ c ∈ name, isIdent c = true

theorem Qualifies.exists_cons (h : Qualifies qualifier name) :
    ∃ c rest, name = c :: rest ∧ isIdent c = true := by
  obtain ⟨c, rest, rfl⟩ := List.exists_cons_of_ne_nil h.nonempty
  exact ⟨c, rest, rfl, h.name c (List.mem_cons_self ..)⟩

/-- The reference stands in the text: at its place, whole, and its `[` is code. -/
structure IsReference (text : List Char) (r : Reference) : Prop where
  qualifies : Qualifies r.qualifier r.name
  written : ∃ front back, text = front ++ (r.written ++ back) ∧ front.length = r.start ∧
    back.head?.any isIdent = false
  code : (mark .code text)[r.start]?.any (·.code) = true

-- ---------------------------------------------------------------------------
-- What follows a bracket
-- ---------------------------------------------------------------------------

theorem takeWhile_isIdent (hn : ∀ c ∈ name, isIdent c = true)
    (hb : back.head?.any isIdent = false) : (name ++ back).takeWhile isIdent = name := by
  rw [List.takeWhile_append_of_pos hn]
  cases back with
  | nil => simp
  | cons c back =>
    rw [List.takeWhile_cons_of_neg (by simpa using hb), List.append_nil]

theorem head?_dropWhile_isIdent (text : List Char) :
    (text.dropWhile isIdent).head?.any isIdent = false := by
  have hhead := List.head?_dropWhile_not isIdent text
  cases hd : text.dropWhile isIdent with
  | nil => rfl
  | cons c rest => simpa [hd] using hhead

/-- The reader of what follows a `[`, on the characters alone. -/
def qualifiedIn? (text : List Char) : Option (List Char × List Char) :=
  match text.dropWhile (!isBracket ·) with
  | ']' :: '.' :: rest =>
    match rest.takeWhile isIdent with
    | [] => none
    | name => some (text.takeWhile (!isBracket ·), name)
  | _ => none

theorem qualified?_eq (marks : List Marked) :
    qualified? marks = qualifiedIn? (marks.map (·.char)) := by
  have hname (rest : List Marked) : (rest.map (·.char)).takeWhile isIdent =
      (rest.takeWhile (isIdent ·.char)).map (·.char) := by
    rw [List.takeWhile_map]
    rfl
  have hfront : (marks.map (·.char)).takeWhile (!isBracket ·) =
      (marks.takeWhile (!isBracket ·.char)).map (·.char) := by
    rw [List.takeWhile_map]
    rfl
  have hback : (marks.map (·.char)).dropWhile (!isBracket ·) =
      (marks.dropWhile (!isBracket ·.char)).map (·.char) := by
    rw [List.dropWhile_map]
    rfl
  rw [qualified?, qualifiedIn?, hfront, hback]
  split
  · rename_i code code' rest hd
    simp only [hd, List.map_cons, hname]
    cases rest.takeWhile (isIdent ·.char) <;> rfl
  · rename_i hne
    split
    · rename_i rest hd
      exfalso
      obtain ⟨⟨c, code⟩, more, hm, hc, hrest⟩ := List.map_eq_cons_iff.1 hd
      obtain ⟨⟨d, code'⟩, last, hl, hd', -⟩ := List.map_eq_cons_iff.1 hrest
      obtain rfl : c = ']' := hc
      obtain rfl : d = '.' := hd'
      exact hne code code' last (by rw [hm, hl])
    · rfl

theorem qualifiedIn?_eq_some_iff :
    qualifiedIn? text = some (qualifier, name) ↔ Qualifies qualifier name ∧
      ∃ back, text = qualifier ++ ']' :: '.' :: (name ++ back) ∧
        back.head?.any isIdent = false := by
  constructor
  · intro h
    unfold qualifiedIn? at h
    split at h
    · rename_i rest hd
      split at h
      · cases h
      · rename_i hne
        obtain ⟨rfl, rfl⟩ := Prod.mk.inj (Option.some.inj h)
        refine ⟨⟨?_, hne, List.all_eq_true.1 List.all_takeWhile⟩, rest.dropWhile isIdent, ?_, ?_⟩
        · intro c hc
          simpa using List.all_eq_true.1 List.all_takeWhile c hc
        · rw [List.takeWhile_append_dropWhile, ← hd, List.takeWhile_append_dropWhile]
        · exact head?_dropWhile_isIdent rest
    · cases h
  · rintro ⟨⟨hq, hne, hn⟩, back, rfl, hb⟩
    have hq' : ∀ c ∈ qualifier, (!isBracket c) = true := fun c hc => by simp [hq c hc]
    have hd : (qualifier ++ ']' :: '.' :: (name ++ back)).dropWhile (!isBracket ·) =
        ']' :: '.' :: (name ++ back) := by
      rw [List.dropWhile_append_of_pos hq', List.dropWhile_cons_of_neg (by decide)]
    have ht : (qualifier ++ ']' :: '.' :: (name ++ back)).takeWhile (!isBracket ·) =
        qualifier := by
      rw [List.takeWhile_append_of_pos hq', List.takeWhile_cons_of_neg (by decide),
        List.append_nil]
    have hw := takeWhile_isIdent hn hb
    cases name with
    | nil => exact absurd rfl hne
    | cons c name => simp only [qualifiedIn?, hd, ht, hw]

-- ---------------------------------------------------------------------------
-- The references of a marked text
-- ---------------------------------------------------------------------------

/-- The reference that begins with the marked character, if one does. -/
def begun? (marked : Marked) (rest : List Marked) : Option (List Char × List Char) :=
  if marked.code && marked.char == '[' then qualified? rest else none

theorem referencesFrom_cons (marked : Marked) (rest : List Marked) :
    referencesFrom place (marked :: rest) =
      ((begun? marked rest).map fun (qualifier, name) => ⟨place, qualifier, name⟩).toList ++
        referencesFrom (place + 1) rest := by
  obtain ⟨c, code⟩ := marked
  rw [referencesFrom, begun?]
  cases (if code && c == '[' then qualified? rest else none) <;> rfl

theorem mem_referencesFrom_iff {r : Reference} :
    r ∈ referencesFrom place marks ↔ ∃ front marked rest, marks = front ++ marked :: rest ∧
      r.start = place + front.length ∧ begun? marked rest = some (r.qualifier, r.name) := by
  induction marks generalizing place with
  | nil => simp [referencesFrom]
  | cons marked marks ih =>
    rw [referencesFrom_cons, List.mem_append, ih]
    constructor
    · rintro (h | ⟨front, m, rest, rfl, hs, hb⟩)
      · simp only [Option.mem_toList, Option.map_eq_some_iff] at h
        obtain ⟨⟨qualifier, name⟩, hb, rfl⟩ := h
        exact ⟨[], marked, marks, rfl, rfl, hb⟩
      · exact ⟨marked :: front, m, rest, rfl, by simp only [List.length_cons]; omega, hb⟩
    · rintro ⟨front, m, rest, hm, hs, hb⟩
      cases front with
      | nil =>
        obtain ⟨rfl, rfl⟩ := List.cons.inj hm
        left
        simp only [Option.mem_toList, Option.map_eq_some_iff]
        exact ⟨_, hb, by cases r; simp_all⟩
      | cons m' front =>
        obtain ⟨rfl, hrest⟩ := List.cons.inj hm
        exact .inr ⟨front, m, rest, hrest, by simp only [List.length_cons] at hs; omega, hb⟩

theorem referencesFrom_append_of_no_bracket {front : List Marked}
    (h : ∀ marked ∈ front, marked.char ≠ '[') (rest : List Marked) :
    referencesFrom place (front ++ rest) = referencesFrom (place + front.length) rest := by
  induction front generalizing place with
  | nil => rfl
  | cons marked front ih =>
    have hn : begun? marked (front ++ rest) = none := by
      rw [begun?, if_neg]
      simp [h marked (List.mem_cons_self ..)]
    rw [List.cons_append, referencesFrom_cons, hn,
      ih fun m hm => h m (List.mem_cons_of_mem _ hm)]
    simp only [Option.map_none, Option.toList_none, List.nil_append, List.length_cons]
    congr 1
    omega

theorem begun?_eq_some_iff {marked : Marked} {rest : List Marked} :
    begun? marked rest = some (qualifier, name) ↔ marked = ⟨'[', true⟩ ∧
      Qualifies qualifier name ∧ ∃ back,
        rest.map (·.char) = qualifier ++ ']' :: '.' :: (name ++ back) ∧
        back.head?.any isIdent = false := by
  obtain ⟨c, code⟩ := marked
  simp only [begun?, Option.ite_none_right_eq_some, Bool.and_eq_true, beq_iff_eq, Marked.mk.injEq,
    qualified?_eq, qualifiedIn?_eq_some_iff]
  constructor
  · rintro ⟨⟨rfl, rfl⟩, h⟩
    exact ⟨⟨rfl, rfl⟩, h⟩
  · rintro ⟨⟨rfl, rfl⟩, h⟩
    exact ⟨⟨rfl, rfl⟩, h⟩

/-- What follows the `[` of a reference, up to the end of the name: no other reference begins
there. -/
theorem span_of_begun? {marked : Marked} {rest : List Marked}
    (h : begun? marked rest = some (qualifier, name)) :
    ∃ front rear, rest = front ++ rear ∧
      front.map (·.char) = qualifier ++ ']' :: '.' :: name ∧
      (∀ m ∈ front, m.char ≠ '[') ∧ (rear.map (·.char)).head?.any isIdent = false := by
  obtain ⟨-, ⟨hq, -, hn⟩, back, hrest, hback⟩ := begun?_eq_some_iff.1 h
  obtain ⟨front, rear, rfl, hfront, rfl⟩ := List.map_eq_append_iff.1
    (show rest.map (·.char) = (qualifier ++ ']' :: '.' :: name) ++ back by simpa using hrest)
  refine ⟨front, rear, rfl, hfront, ?_, hback⟩
  intro m hm
  have hc : m.char ∈ qualifier ++ ']' :: '.' :: name := hfront ▸ List.mem_map_of_mem hm
  simp only [List.mem_append, List.mem_cons] at hc
  rcases hc with hc | hc | hc | hc
  · exact fun he => absurd (hq _ hc) (by rw [he]; decide)
  · exact fun he => absurd (hc.symm.trans he) (by decide)
  · exact fun he => absurd (hc.symm.trans he) (by decide)
  · exact fun he => absurd (hn _ hc) (by rw [he]; decide)

theorem mem_references_iff {r : Reference} : r ∈ references text ↔ IsReference text r := by
  rw [references, mem_referencesFrom_iff]
  constructor
  · rintro ⟨front, marked, rest, hm, hs, hb⟩
    obtain ⟨rfl, hq, back, hrest, hback⟩ := begun?_eq_some_iff.1 hb
    rw [Nat.zero_add] at hs
    refine ⟨hq, ⟨front.map (·.char), back, ?_, by rw [List.length_map, hs], hback⟩, ?_⟩
    · have ht := map_char_mark .code text
      rw [hm, List.map_append, List.map_cons, hrest] at ht
      rw [← ht]
      simp [Reference.written]
    · rw [hm, hs, List.getElem?_append_right (Nat.le_refl _), Nat.sub_self]
      rfl
  · rintro ⟨hq, ⟨front, back, ht, hs, hback⟩, hc⟩
    have hd : ((mark .code text).drop r.start).map (·.char) = r.written ++ back := by
      rw [List.map_drop, map_char_mark, ht, ← hs, List.drop_left]
    have hhead : ((mark .code text).drop r.start).head?.any (·.code) = true := by
      rw [List.head?_drop]
      exact hc
    have hl : r.start ≤ (mark .code text).length := by
      rw [length_mark, ht, ← hs, List.length_append]
      exact Nat.le_add_right _ _
    cases hm : (mark .code text).drop r.start with
    | nil =>
      rw [hm] at hhead
      cases hhead
    | cons marked rest =>
      rw [hm] at hd hhead
      obtain ⟨c, code⟩ := marked
      obtain ⟨rfl, hrest⟩ := List.cons.inj hd
      obtain rfl : code = true := hhead
      refine ⟨(mark .code text).take r.start, ⟨'[', true⟩, rest, ?_, ?_, ?_⟩
      · rw [← hm, List.take_append_drop]
      · rw [List.length_take, Nat.min_eq_left hl, Nat.zero_add]
      · refine begun?_eq_some_iff.2 ⟨rfl, hq, back, ?_, hback⟩
        rw [hrest]
        simp

end ViewRollout.Sql
