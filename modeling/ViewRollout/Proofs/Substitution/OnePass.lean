import ViewRollout.Proofs.Table
import ViewRollout.Proofs.Text.Offset
import ViewRollout.Substitution

/-!
# One pass over a text

`apply_one_pass`: a text has exactly one decomposition, from left to right,
into tokens and single characters, where the longest token that begins at a
place is the one that is taken; a substitution writes each token's schema in
its place and copies the characters. Names without brackets give tokens that
never overlap, so none of these is passed over.
-/

namespace ViewRollout.Substitution

open Text

/-- The token stands for the schema: the one that is given last for its name. -/
def StandsFor (names : List (String × String)) (token schema : List Char) : Prop :=
  ∃ name value, names.reverse.lookup name = some value ∧
    token = (placeholderToken name).toList ∧ schema = value.toList

structure LongestToken (names : List (String × String)) (token schema text : List Char) :
    Prop where
  stands : StandsFor names token schema
  front : token <+: text
  longest : ∀ other schema', StandsFor names other schema' → other <+: text →
    other.length ≤ token.length

/-- What a pass takes of a text at once. -/
inductive Piece where
  | token (chars schema : List Char)
  | char (c : Char)
  deriving DecidableEq, Repr

def Piece.chars : Piece → List Char
  | .token chars _ => chars
  | .char c => [c]

def Piece.written : Piece → List Char
  | .token _ schema => schema
  | .char c => [c]

/-- The text is these pieces from left to right: the longest token wherever one begins, and else a
single character. -/
inductive Parted (names : List (String × String)) : (text : List Char) → List Piece → Prop where
  | nil : Parted names [] []
  | token {token schema rest : List Char} {pieces : List Piece} :
      LongestToken names token schema (token ++ rest) → Parted names rest pieces →
      Parted names (token ++ rest) (.token token schema :: pieces)
  | char {c : Char} {rest : List Char} {pieces : List Piece} :
      (∀ token schema, StandsFor names token schema → ¬token <+: c :: rest) →
      Parted names rest pieces → Parted names (c :: rest) (.char c :: pieces)

/-- The order in which tokens are tried: longer ones first, by their bytes, and those of one length
in the order of their code points. -/
def triedBefore (a b : String) : Bool :=
  if byteSize a.toList = byteSize b.toList then decide (a ≤ b)
  else decide (byteSize b.toList < byteSize a.toList)

def branches (names : List (String × String)) : List String :=
  (ofNames names).tokens.mergeSort triedBefore

variable {names : List (String × String)} {pairs : List (List Char × List Char)}
variable {token schema text rest front back : List Char} {pieces : List Piece}

-- ---------------------------------------------------------------------------
-- Tokens
-- ---------------------------------------------------------------------------

theorem toList_placeholderToken (name : String) :
    (placeholderToken name).toList = '[' :: (name.toList ++ [']']) := by
  simp [placeholderToken]

theorem placeholderToken_inj {a b : String} : placeholderToken a = placeholderToken b ↔ a = b := by
  simp [← String.toList_inj, toList_placeholderToken]

theorem StandsFor.exists_inner (h : StandsFor names token schema) :
    ∃ inner, token = '[' :: (inner ++ [']']) := by
  obtain ⟨name, -, -, rfl, -⟩ := h
  exact ⟨name.toList, toList_placeholderToken name⟩

theorem StandsFor.ne_nil (h : StandsFor names token schema) : token ≠ [] := by
  obtain ⟨inner, rfl⟩ := h.exists_inner
  exact List.cons_ne_nil _ _

theorem StandsFor.unique {schema' : List Char} (h : StandsFor names token schema)
    (h' : StandsFor names token schema') : schema = schema' := by
  obtain ⟨name, value, hv, rfl, rfl⟩ := h
  obtain ⟨name', value', hv', hn, rfl⟩ := h'
  obtain rfl := placeholderToken_inj.1 (String.toList_inj.1 hn)
  rw [Option.some.inj (hv.symm.trans hv')]

/-- Of two tokens that a text begins with, equally long ones are the same. -/
theorem LongestToken.unique {token' schema' : List Char} (h : LongestToken names token schema text)
    (h' : LongestToken names token' schema' text) : token = token' ∧ schema = schema' := by
  have hle := h.longest _ _ h'.stands h'.front
  have hge := h'.longest _ _ h.stands h.front
  obtain rfl : token = token' :=
    (List.prefix_of_prefix_length_le h.front h'.front hge).eq_of_length_le hle
  exact ⟨rfl, h.stands.unique h'.stands⟩

def pairsOf (s : Substitution) : List (List Char × List Char) :=
  s.replacements.map fun (token, schema) => (token.toList, schema.toList)

theorem lookup_tokens (names : List (String × String)) (name : String) :
    (names.map fun (name, schema) => (placeholderToken name, schema)).lookup
      (placeholderToken name) = names.lookup name := by
  induction names with
  | nil => rfl
  | cons pair names ih =>
    obtain ⟨other, schema⟩ := pair
    simp only [List.map_cons, List.lookup_cons, ih]
    by_cases h : name = other
    · simp [h]
    · rw [beq_false_of_ne h, beq_false_of_ne (mt placeholderToken_inj.1 h)]

theorem nodup_keys_replacements (names : List (String × String)) :
    (ofNames names).replacements.keys.Nodup := by
  have hempty : (Table.keys ([] : Table String String)).Nodup := List.nodup_nil
  exact Table.nodup_keys_putAll hempty _

theorem mem_replacements {token schema : String} :
    (token, schema) ∈ (ofNames names).replacements ↔
      ∃ name, names.reverse.lookup name = some schema ∧ token = placeholderToken name := by
  rw [Table.mem_iff_get? (nodup_keys_replacements names), ofNames, Table.get?_putAll,
    ← List.map_reverse]
  simp only [Table.get?, Option.or_none]
  constructor
  · intro h
    obtain ⟨⟨name, value⟩, -, he⟩ := List.mem_map.1 (Table.mem_of_lookup h)
    obtain ⟨rfl, rfl⟩ := Prod.mk.inj he
    exact ⟨name, (lookup_tokens _ _).symm.trans h, rfl⟩
  · rintro ⟨name, h, rfl⟩
    rw [lookup_tokens, h]

theorem mem_pairsOf : (token, schema) ∈ pairsOf (ofNames names) ↔ StandsFor names token schema := by
  simp only [pairsOf, List.mem_map, Prod.exists, mem_replacements, Prod.mk.injEq, StandsFor]
  constructor
  · rintro ⟨_, value, ⟨name, h, rfl⟩, rfl, rfl⟩
    exact ⟨name, value, h, rfl, rfl⟩
  · rintro ⟨name, value, h, rfl, rfl⟩
    exact ⟨_, value, ⟨name, h, rfl⟩, rfl, rfl⟩

-- ---------------------------------------------------------------------------
-- The choice of a token
-- ---------------------------------------------------------------------------

theorem longest?_eq_none_iff :
    longest? text pairs = none ↔ ∀ pair ∈ pairs, ¬pair.1 <+: text := by
  induction pairs with
  | nil => simp [longest?]
  | cons pair pairs ih =>
    obtain ⟨token, schema⟩ := pair
    rw [longest?, List.forall_mem_cons, ← ih]
    cases longest? text pairs with
    | none => simp
    | some found =>
      obtain ⟨best, replacement⟩ := found
      dsimp only
      split <;> simp

theorem longest?_eq_some (h : longest? text pairs = some (token, schema)) :
    (token, schema) ∈ pairs ∧ token <+: text ∧
      ∀ pair ∈ pairs, pair.1 <+: text → pair.1.length ≤ token.length := by
  induction pairs generalizing token schema with
  | nil => cases h
  | cons pair pairs ih =>
    obtain ⟨first, value⟩ := pair
    rw [longest?] at h
    cases hrest : longest? text pairs with
    | none =>
      simp only [hrest, Option.ite_none_right_eq_some, List.isPrefixOf_iff_prefix,
        Option.some.injEq, Prod.mk.injEq] at h
      obtain ⟨hfirst, rfl, rfl⟩ := h
      refine ⟨List.mem_cons_self .., hfirst, List.forall_mem_cons.2 ⟨fun _ => Nat.le_refl _, ?_⟩⟩
      exact fun pair hm hp => absurd hp (longest?_eq_none_iff.1 hrest pair hm)
    | some found =>
      obtain ⟨best, replacement⟩ := found
      obtain ⟨hm, hp, hmost⟩ := ih hrest
      simp only [hrest, Bool.and_eq_true, List.isPrefixOf_iff_prefix, decide_eq_true_eq] at h
      split at h
      · rename_i hfirst
        obtain ⟨rfl, rfl⟩ := Prod.mk.inj (Option.some.inj h)
        refine ⟨List.mem_cons_self .., hfirst.1,
          List.forall_mem_cons.2 ⟨fun _ => Nat.le_refl _, ?_⟩⟩
        exact fun pair hm hp => Nat.le_trans (hmost pair hm hp) (Nat.le_of_lt hfirst.2)
      · rename_i hfirst
        obtain ⟨rfl, rfl⟩ := Prod.mk.inj (Option.some.inj h)
        refine ⟨List.mem_cons_of_mem _ hm, hp, List.forall_mem_cons.2 ⟨fun hf => ?_, hmost⟩⟩
        exact Nat.le_of_not_lt fun hlt => hfirst ⟨hf, hlt⟩

theorem longest?_pairsOf :
    longest? text (pairsOf (ofNames names)) = some (token, schema) ↔
      LongestToken names token schema text := by
  constructor
  · intro h
    obtain ⟨hm, hp, hmost⟩ := longest?_eq_some h
    exact ⟨mem_pairsOf.1 hm, hp, fun other schema' ho => hmost _ (mem_pairsOf.2 ho)⟩
  · intro h
    cases hc : longest? text (pairsOf (ofNames names)) with
    | none => exact absurd h.front (longest?_eq_none_iff.1 hc _ (mem_pairsOf.2 h.stands))
    | some found =>
      obtain ⟨hm, hp, hmost⟩ := longest?_eq_some hc
      have hfound : LongestToken names found.1 found.2 text :=
        ⟨mem_pairsOf.1 hm, hp, fun other schema' ho => hmost _ (mem_pairsOf.2 ho)⟩
      obtain ⟨ht, hs⟩ := hfound.unique h
      rw [← ht, ← hs]

theorem longest?_pairsOf_eq_none :
    longest? text (pairsOf (ofNames names)) = none ↔
      ∀ token schema, StandsFor names token schema → ¬token <+: text := by
  rw [longest?_eq_none_iff]
  exact ⟨fun h token schema hs => h _ (mem_pairsOf.2 hs),
    fun h pair hm => h _ _ (mem_pairsOf.1 hm)⟩

-- ---------------------------------------------------------------------------
-- The order of trying
-- ---------------------------------------------------------------------------

theorem triedBefore_trans (a b c : String) (hab : triedBefore a b = true)
    (hbc : triedBefore b c = true) : triedBefore a c = true := by
  simp only [triedBefore] at *
  split at hab <;> split at hbc <;> split <;> simp only [decide_eq_true_eq] at *
  · exact String.le_trans hab hbc
  all_goals omega

theorem triedBefore_total (a b : String) : (triedBefore a b || triedBefore b a) = true := by
  simp only [triedBefore, eq_comm (a := byteSize b.toList)]
  split
  · simpa using String.le_total a b
  · rw [Bool.or_eq_true, decide_eq_true_eq, decide_eq_true_eq]
    omega

theorem byteSize_le_of_triedBefore {a b : String} (h : triedBefore a b = true) :
    byteSize b.toList ≤ byteSize a.toList := by
  simp only [triedBefore] at h
  split at h
  · omega
  · exact Nat.le_of_lt (of_decide_eq_true h)

theorem mem_branches {branch : String} :
    branch ∈ branches names ↔ ∃ schema, StandsFor names branch.toList schema := by
  rw [branches, List.mem_mergeSort, tokens, List.mem_mergeSort, Table.keys, List.mem_map]
  simp only [Prod.exists, exists_and_right, exists_eq_right, mem_replacements, StandsFor,
    String.toList_inj]
  constructor
  · rintro ⟨value, name, h, rfl⟩
    exact ⟨_, name, value, h, rfl, rfl⟩
  · rintro ⟨_, name, value, h, rfl, rfl⟩
    exact ⟨value, name, h, rfl⟩

theorem first_longest {branch : String}
    (h : (branches names).find? (·.toList.isPrefixOf text) = some branch) :
    ∃ schema, LongestToken names branch.toList schema text := by
  have hsorted : (branches names).Pairwise (triedBefore · ·) :=
    List.pairwise_mergeSort triedBefore_trans triedBefore_total _
  obtain ⟨hp, before, behind, hb, hnone⟩ := List.find?_eq_some_iff_append.1 h
  obtain ⟨schema, hs⟩ := mem_branches.1 (by rw [hb]; simp : branch ∈ branches names)
  rw [List.isPrefixOf_iff_prefix] at hp
  refine ⟨schema, hs, hp, fun other schema' ho hother => ?_⟩
  have hm : String.ofList other ∈ before ++ branch :: behind := by
    rw [← hb]
    exact mem_branches.2 ⟨schema', by rwa [String.toList_ofList]⟩
  rw [List.mem_append, List.mem_cons] at hm
  rcases hm with hm | hm | hm
  · exact absurd (hnone _ hm) (by simpa using hother)
  · simp [← hm]
  · rw [hb] at hsorted
    have htried := (List.pairwise_cons.1 (List.pairwise_append.1 hsorted).2.1).1 _ hm
    have hle := byteSize_le_of_triedBefore htried
    rw [String.toList_ofList] at hle
    -- A prefix of the same text that takes more characters takes more bytes.
    refine Nat.le_of_not_lt fun hlt => ?_
    obtain ⟨more, rfl⟩ := List.prefix_of_prefix_length_le hp hother (by omega)
    have hmore : more ≠ [] := by
      rintro rfl
      simp at hlt
    have hpos := byteSize_pos hmore
    rw [byteSize_append] at hle
    omega

/-- The first token tried that the text begins with is the longest one. -/
theorem find?_branches {branch : String} :
    (branches names).find? (·.toList.isPrefixOf text) = some branch ↔
      ∃ schema, LongestToken names branch.toList schema text := by
  constructor
  · exact first_longest
  · rintro ⟨schema, h⟩
    cases hfind : (branches names).find? (·.toList.isPrefixOf text) with
    | none =>
      have hno := List.find?_eq_none.1 hfind branch (mem_branches.2 ⟨schema, h.stands⟩)
      exact absurd (List.isPrefixOf_iff_prefix.2 h.front) hno
    | some first =>
      obtain ⟨_, hfirst⟩ := first_longest hfind
      rw [String.toList_inj.1 (hfirst.unique h).1]

-- ---------------------------------------------------------------------------
-- The pass
-- ---------------------------------------------------------------------------

theorem replaceFrom_passed (pairs : List (List Char × List Char)) (front rest : List Char) :
    replaceFrom pairs front.length (front ++ rest) = replaceFrom pairs 0 rest := by
  induction front with
  | nil => rfl
  | cons c front ih =>
    rw [List.length_cons, List.cons_append, replaceFrom]
    exact ih

theorem replaceFrom_char {c : Char} (h : longest? (c :: rest) pairs = none) :
    replaceFrom pairs 0 (c :: rest) = c :: replaceFrom pairs 0 rest := by
  rw [replaceFrom, h]

theorem replaceFrom_token (hne : token ≠ [])
    (h : longest? (token ++ rest) pairs = some (token, schema)) :
    replaceFrom pairs 0 (token ++ rest) = schema ++ replaceFrom pairs 0 rest := by
  obtain ⟨c, token, rfl⟩ := List.exists_cons_of_ne_nil hne
  rw [List.cons_append] at h ⊢
  rw [replaceFrom, h]
  dsimp only
  rw [List.length_cons, Nat.add_sub_cancel, replaceFrom_passed]

theorem exists_parted (names : List (String × String)) (text : List Char) :
    ∃ pieces, Parted names text pieces ∧
      replaceFrom (pairsOf (ofNames names)) 0 text = pieces.flatMap Piece.written := by
  induction hn : text.length using Nat.strongRecOn generalizing text with
  | _ n ih =>
    cases text with
    | nil => exact ⟨[], .nil, rfl⟩
    | cons c rest =>
      cases hc : longest? (c :: rest) (pairsOf (ofNames names)) with
      | none =>
        obtain ⟨pieces, hp, hw⟩ := ih rest.length (by simp [← hn]) rest rfl
        refine ⟨.char c :: pieces, .char (longest?_pairsOf_eq_none.1 hc) hp, ?_⟩
        rw [replaceFrom_char hc, hw]
        rfl
      | some found =>
        obtain ⟨token, schema⟩ := found
        have hlongest := longest?_pairsOf.1 hc
        obtain ⟨behind, hb⟩ := hlongest.front
        rw [← hb] at hc hlongest hn ⊢
        have hne := hlongest.stands.ne_nil
        have hlt : behind.length < n := by
          have := List.length_pos_iff.2 hne
          rw [← hn, List.length_append]
          omega
        obtain ⟨pieces, hp, hw⟩ := ih behind.length hlt behind rfl
        refine ⟨.token token schema :: pieces, .token hlongest hp, ?_⟩
        rw [replaceFrom_token hne hc, hw]
        rfl

theorem Parted.unique {pieces' : List Piece} (h : Parted names text pieces)
    (h' : Parted names text pieces') : pieces' = pieces := by
  induction h generalizing pieces' with
  | nil =>
    generalize ht : ([] : List Char) = text at h'
    cases h' with
    | nil => rfl
    | token hl => exact absurd (List.append_eq_nil_iff.1 ht.symm).1 hl.stands.ne_nil
    | char => cases ht
  | @token token schema rest pieces hl _ ih =>
    generalize ht : token ++ rest = text at h'
    cases h' with
    | nil => exact absurd (List.append_eq_nil_iff.1 ht).1 hl.stands.ne_nil
    | token hl' hrest =>
      rw [← ht] at hl'
      obtain ⟨rfl, rfl⟩ := hl.unique hl'
      rw [List.append_cancel_left ht] at ih
      rw [ih hrest]
    | char hno => exact absurd (ht ▸ hl.front) (hno _ _ hl.stands)
  | @char c rest pieces hno _ ih =>
    generalize ht : c :: rest = text at h'
    cases h' with
    | nil => cases ht
    | token hl => exact absurd (ht ▸ hl.front) (hno _ _ hl.stands)
    | char _ hrest =>
      obtain ⟨rfl, rfl⟩ := List.cons.inj ht
      rw [ih hrest]

theorem Parted.flatMap_chars (h : Parted names text pieces) :
    pieces.flatMap Piece.chars = text := by
  induction h with
  | nil => rfl
  | token _ _ ih => rw [List.flatMap_cons, ih]; rfl
  | char _ _ ih => rw [List.flatMap_cons, ih]; rfl

theorem Parted.written_of_no_token (h : Parted names text pieces)
    (hno : ∀ token schema, StandsFor names token schema → ¬token <:+: text) :
    pieces.flatMap Piece.written = text := by
  induction h with
  | nil => rfl
  | token hl => exact absurd hl.front.isInfix (hno _ _ hl.stands)
  | char _ _ ih =>
    rw [List.flatMap_cons, ih fun token schema hs hi => hno token schema hs (hi.trans
      (List.suffix_cons _ _).isInfix)]
    rfl

theorem Parted.replaceFrom_eq (h : Parted names text pieces) :
    replaceFrom (pairsOf (ofNames names)) 0 text = pieces.flatMap Piece.written := by
  obtain ⟨pieces', h', hw⟩ := exists_parted names text
  rw [hw, h.unique h']

theorem toList_apply (names : List (String × String)) (text : String) :
    ((ofNames names).apply text).toList =
      replaceFrom (pairsOf (ofNames names)) 0 text.toList := by
  rw [apply, String.toList_ofList]
  rfl

/-- What a pass does depends on which schemas the tokens stand for, not on how that is said. -/
theorem LongestToken.congr {names' : List (String × String)}
    (hs : ∀ token schema, StandsFor names token schema ↔ StandsFor names' token schema)
    (h : LongestToken names token schema text) : LongestToken names' token schema text where
  stands := (hs _ _).1 h.stands
  front := h.front
  longest other schema' ho := h.longest other schema' ((hs _ _).2 ho)

theorem Parted.congr {names' : List (String × String)}
    (hs : ∀ token schema, StandsFor names token schema ↔ StandsFor names' token schema)
    (h : Parted names text pieces) : Parted names' text pieces := by
  induction h with
  | nil => exact .nil
  | token hl _ ih => exact .token (hl.congr hs) ih
  | char hno _ ih => exact .char (fun token schema h => hno token schema ((hs _ _).2 h)) ih

theorem apply_congr {names' : List (String × String)}
    (hs : ∀ token schema, StandsFor names token schema ↔ StandsFor names' token schema)
    (text : String) : (ofNames names').apply text = (ofNames names).apply text := by
  obtain ⟨pieces, h, hw⟩ := exists_parted names text.toList
  rw [← String.toList_inj, toList_apply, toList_apply, hw, (h.congr hs).replaceFrom_eq]

-- ---------------------------------------------------------------------------
-- Names without brackets
-- ---------------------------------------------------------------------------

/-- No name of a placeholder has a bracket in it. -/
def Unbracketed (names : List (String × String)) : Prop :=
  ∀ pair ∈ names, '[' ∉ pair.1.toList ∧ ']' ∉ pair.1.toList

theorem StandsFor.unbracketed (hnames : Unbracketed names) (h : StandsFor names token schema) :
    ∃ inner, token = '[' :: (inner ++ [']']) ∧ '[' ∉ inner ∧ ']' ∉ inner := by
  obtain ⟨name, value, hv, rfl, -⟩ := h
  have hm : (name, value) ∈ names := List.mem_reverse.1 (Table.mem_of_lookup hv)
  exact ⟨name.toList, toList_placeholderToken name, hnames _ hm⟩

theorem takeWhile_closed {c : Char} (h : c ∉ front) (rest : List Char) :
    (front ++ c :: rest).takeWhile (· != c) = front := by
  have hfront : ∀ d ∈ front, (d != c) = true := by
    rintro d hd
    exact bne_iff_ne.2 (ne_of_mem_of_not_mem hd h)
  rw [List.takeWhile_append_of_pos hfront, List.takeWhile_cons_of_neg (by simp), List.append_nil]

/-- Where a token begins inside another one, the two are the same. -/
theorem eq_of_token_inside {other schema' : List Char} (hnames : Unbracketed names)
    (h : StandsFor names token schema) (h' : StandsFor names other schema')
    (hin : other = front ++ rest) (hne : rest ≠ []) (ht : token ++ back = rest ++ text) :
    front = [] ∧ other = token := by
  obtain ⟨inner, rfl, -, hclose⟩ := h.unbracketed hnames
  obtain ⟨inner', rfl, hopen', hclose'⟩ := h'.unbracketed hnames
  obtain ⟨c, rest, rfl⟩ := List.exists_cons_of_ne_nil hne
  obtain ⟨rfl, htail⟩ := List.cons.inj ht
  cases front with
  | cons d front =>
    -- A second opening bracket in the other token.
    have hm : '[' ∈ inner' ++ [']'] := by
      rw [(List.cons.inj hin).2]
      simp
    rw [List.mem_append] at hm
    rcases hm with hm | hm
    · exact absurd hm hopen'
    · exact absurd (List.mem_singleton.1 hm) (by decide)
  | nil =>
    obtain rfl : inner' ++ [']'] = rest := (List.cons.inj hin).2
    have hsame : inner ++ ']' :: back = inner' ++ ']' :: text := by simpa using htail
    rw [← takeWhile_closed hclose' text, ← hsame, takeWhile_closed hclose]
    exact ⟨rfl, rfl⟩

theorem Parted.exists_token (hnames : Unbracketed names) (h : Parted names text pieces)
    (hs : StandsFor names token schema) (ht : text = front ++ (token ++ back)) :
    ∃ before behind, pieces = before ++ .token token schema :: behind ∧
      before.flatMap Piece.chars = front := by
  induction h generalizing front with
  | nil =>
    have hnil := (List.append_eq_nil_iff.1 ht.symm).2
    exact absurd (List.append_eq_nil_iff.1 hnil).1 hs.ne_nil
  | @char c rest pieces hno _ ih =>
    cases front with
    | nil => exact absurd ⟨back, ht.symm⟩ (hno _ _ hs)
    | cons d front =>
      obtain ⟨rfl, hrest⟩ := List.cons.inj ht
      obtain ⟨before, behind, rfl, hb⟩ := ih hrest
      exact ⟨.char c :: before, behind, rfl, congrArg (c :: ·) hb⟩
  | @token other schema' rest pieces hl _ ih =>
    rcases List.append_eq_append_iff.1 ht with ⟨gap, rfl, hrest⟩ | ⟨inside, hin, hrest⟩
    · obtain ⟨before, behind, rfl, hb⟩ := ih hrest
      exact ⟨.token other schema' :: before, behind, rfl, by rw [List.flatMap_cons, hb]; rfl⟩
    · by_cases hne : inside = []
      · subst hne
        obtain ⟨before, behind, rfl, hb⟩ := @ih [] hrest.symm
        refine ⟨.token other schema' :: before, behind, rfl, ?_⟩
        rw [List.flatMap_cons, hb, Piece.chars, hin, List.append_nil, List.append_nil]
      · obtain ⟨rfl, rfl⟩ := eq_of_token_inside hnames hs hl.stands hin hne hrest
        exact ⟨[], pieces, by rw [hs.unique hl.stands]; rfl, rfl⟩

/-- A substitution goes over a text once. The text has one decomposition into the longest tokens
from left to right and the characters between them, and what is written for these pieces is the
result, so nothing that was put in is read. The longest token is the first one that the text begins
with when the longer ones are tried first. A text without tokens stays as it is. When no name has
brackets, every place where a token occurs is one where it is replaced. -/
theorem apply_one_pass (names : List (String × String)) (text : String) :
    ∃ pieces, Parted names text.toList pieces ∧
      (∀ other, Parted names text.toList other → other = pieces) ∧
      pieces.flatMap Piece.chars = text.toList ∧
      ((ofNames names).apply text).toList = pieces.flatMap Piece.written ∧
      (∀ rest branch, (branches names).find? (·.toList.isPrefixOf rest) = some branch ↔
        ∃ schema, LongestToken names branch.toList schema rest) ∧
      ((∀ token schema, StandsFor names token schema → ¬token <:+: text.toList) →
        (ofNames names).apply text = text) ∧
      ((∀ pair ∈ names, '[' ∉ pair.1.toList ∧ ']' ∉ pair.1.toList) →
        ∀ front token schema back, StandsFor names token schema →
          text.toList = front ++ (token ++ back) →
          ∃ before behind, pieces = before ++ .token token schema :: behind ∧
            before.flatMap Piece.chars = front) := by
  obtain ⟨pieces, hp, hw⟩ := exists_parted names text.toList
  have happly : (ofNames names).apply text = String.ofList (pieces.flatMap Piece.written) :=
    congrArg String.ofList hw
  refine ⟨pieces, hp, fun other ho => hp.unique ho, hp.flatMap_chars, ?_, fun _ _ => find?_branches,
    fun hno => ?_, fun hnames front token schema back hs ht => hp.exists_token hnames hs ht⟩
  · rw [happly, String.toList_ofList]
  · rw [happly, hp.written_of_no_token hno, String.ofList_toList]

/-- A token that another one is part of, and a schema that looks like a token. -/
example : (ofNames [("a", "[b]"), ("a]b", "x"), ("b", "y")]).apply "[a]b] [a][b]" = "x [b]y" := by
  decide +kernel

end ViewRollout.Substitution
