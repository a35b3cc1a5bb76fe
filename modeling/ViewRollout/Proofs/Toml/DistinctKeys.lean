import ViewRollout.Proofs.Table
import ViewRollout.Toml.DateTable
import ViewRollout.Toml.Document

/-!
# Keys of documents

No table of a document, and none inside its values, has two values for one
key (`distinct_document`): each step that puts something into a table keeps
this.
-/

namespace ViewRollout.Toml

variable {entries changed sub : Entries} {value : Value} {key : String} {path : List String}
variable {origin : Origin} {items : List Value} {elements : List Entries}
variable {text rest : List Char} {pairs : List (List String × Value)}

/-- No table in the value, and none inside it, has a key twice. -/
inductive Value.Distinct : Value → Prop where
  | string (text : String) : Distinct (.string text)
  | integer (n : Int) : Distinct (.integer n)
  | float (literal : String) : Distinct (.float literal)
  | boolean (b : Bool) : Distinct (.boolean b)
  | datetime (d : Datetime) : Distinct (.datetime d)
  | array {items : List Value} : (∀ item ∈ items, Distinct item) → Distinct (.array items)
  | table {origin : Origin} {entries : List (String × Value)} :
    (Table.keys entries).Nodup →
    (∀ key value, Table.get? key entries = some value → Distinct value) →
      Distinct (.table origin entries)
  | tables {elements : List (List (String × Value))} :
    (∀ entries ∈ elements, (Table.keys entries).Nodup) →
    (∀ entries ∈ elements, ∀ key value, Table.get? key entries = some value → Distinct value) →
      Distinct (.tables elements)

/-- No table has a key twice: neither this one nor those inside its values. -/
structure Entries.Distinct (entries : Entries) : Prop where
  keys : (Table.keys entries).Nodup
  values : ∀ key value, Table.get? key entries = some value → value.Distinct

theorem distinct_table : (Value.table origin entries).Distinct ↔ Entries.Distinct entries := by
  constructor
  · intro h
    cases h with
    | table hkeys hvalues => exact ⟨hkeys, hvalues⟩
  · exact fun h => .table h.keys h.values

theorem distinct_tables :
    (Value.tables elements).Distinct ↔ ∀ entries ∈ elements, Entries.Distinct entries := by
  constructor
  · intro h entries he
    cases h with
    | tables hkeys hvalues => exact ⟨hkeys entries he, hvalues entries he⟩
  · exact fun h => .tables (fun entries he => (h entries he).keys) fun entries he =>
      (h entries he).values

-- ---------------------------------------------------------------------------
-- Putting values into tables
-- ---------------------------------------------------------------------------

namespace Entries

theorem Distinct.nil : Distinct [] :=
  ⟨List.nodup_nil, nofun⟩

theorem Distinct.put (h : Distinct entries) (hvalue : value.Distinct) :
    Distinct (Table.put key value entries) := by
  refine ⟨Table.nodup_keys_put h.keys, fun other found hfound => ?_⟩
  rw [Table.get?_put] at hfound
  split at hfound
  · cases hfound
    exact hvalue
  · exact h.values other found hfound

theorem Distinct.filter (h : Distinct entries) (p : String × Value → Bool) :
    Distinct (entries.filter p) := by
  refine ⟨(List.filter_sublist.map Prod.fst).nodup h.keys, fun other found hfound => ?_⟩
  have hmem := (List.mem_filter.1 (Table.mem_of_get? hfound)).1
  exact h.values other found (Table.get?_of_mem h.keys hmem)

/-- The last table of an array of tables may be replaced. -/
theorem distinct_replaceLast (h : (Value.tables elements).Distinct) (hsub : Distinct sub) :
    (Value.tables (elements.dropLast ++ [sub])).Distinct := by
  rw [distinct_tables] at h ⊢
  intro entries he
  rcases List.mem_append.1 he with he | he
  · exact h entries ((List.dropLast_sublist elements).mem he)
  · rw [List.mem_singleton.1 he]
    exact hsub

theorem distinct_last (h : (Value.tables elements).Distinct) :
    Distinct (elements.getLast?.getD []) := by
  cases hlast : elements.getLast? with
  | none => exact .nil
  | some last => exact distinct_tables.1 h last (List.mem_of_getLast? hlast)

theorem Distinct.define (h : Distinct entries) (hvalue : value.Distinct)
    (hdefine : Entries.define value path entries = some changed) : Distinct changed := by
  induction path generalizing entries changed with
  | nil => cases hdefine
  | cons key inner ih =>
    cases inner with
    | nil =>
      rw [Entries.define] at hdefine
      split at hdefine
      · cases hdefine
      · cases hdefine
        exact h.put hvalue
    | cons next rest =>
      rw [Entries.define] at hdefine
      split at hdefine
      · obtain ⟨sub, hsub, rfl⟩ := Option.map_eq_some_iff.1 hdefine
        exact h.put (distinct_table.2 (ih .nil hsub))
      · rename_i hget
        obtain ⟨sub, hsub, rfl⟩ := Option.map_eq_some_iff.1 hdefine
        exact h.put (distinct_table.2 (ih (distinct_table.1 (h.values _ _ hget)) hsub))
      · rename_i hget
        split at hdefine
        · cases hdefine
        · obtain ⟨sub, hsub, rfl⟩ := Option.map_eq_some_iff.1 hdefine
          exact h.put (distinct_table.2 (ih (distinct_table.1 (h.values _ _ hget)) hsub))
      · rename_i hget
        split at hdefine
        · cases hdefine
        · obtain ⟨sub, hsub, rfl⟩ := Option.map_eq_some_iff.1 hdefine
          have helements := h.values _ _ hget
          exact h.put (distinct_replaceLast helements (ih (distinct_last helements) hsub))
      · cases hdefine

theorem Distinct.change {f : Entries → Option Entries} (h : Distinct entries)
    (hf : ∀ {before after : Entries}, Distinct before → f before = some after → Distinct after)
    (hchange : Entries.change f path entries = some changed) : Distinct changed := by
  induction path generalizing entries changed with
  | nil => exact hf h hchange
  | cons key rest ih =>
    rw [Entries.change] at hchange
    split at hchange
    · obtain ⟨sub, hsub, rfl⟩ := Option.map_eq_some_iff.1 hchange
      exact h.put (distinct_table.2 (ih .nil hsub))
    · cases hchange
    · rename_i hget
      obtain ⟨sub, hsub, rfl⟩ := Option.map_eq_some_iff.1 hchange
      exact h.put (distinct_table.2 (ih (distinct_table.1 (h.values _ _ hget)) hsub))
    · rename_i hget
      obtain ⟨sub, hsub, rfl⟩ := Option.map_eq_some_iff.1 hchange
      have helements := h.values _ _ hget
      exact h.put (distinct_replaceLast helements (ih (distinct_last helements) hsub))
    · cases hchange

theorem Distinct.openTable (h : Distinct entries)
    (hopen : Entries.openTable key entries = some changed) : Distinct changed := by
  rw [Entries.openTable] at hopen
  split at hopen
  · cases hopen
    exact h.put (distinct_table.2 .nil)
  · rename_i hget
    cases hopen
    exact (h.filter _).put (distinct_table.2 (distinct_table.1 (h.values _ _ hget)))
  · cases hopen

theorem Distinct.openElement (h : Distinct entries)
    (hopen : Entries.openElement key entries = some changed) : Distinct changed := by
  rw [Entries.openElement] at hopen
  split at hopen
  · cases hopen
    exact h.put (distinct_tables.2 fun entries he => List.mem_singleton.1 he ▸ .nil)
  · rename_i elements hget
    cases hopen
    refine h.put (distinct_tables.2 fun entries he => ?_)
    rcases List.mem_append.1 he with he | he
    · exact distinct_tables.1 (h.values _ _ hget) entries he
    · exact List.mem_singleton.1 he ▸ .nil
  · cases hopen

end Entries

/-- A value that passes as a table passes as one without double keys. -/
theorem Value.Distinct.of_entries? (h : value.Distinct) (hentries : value.entries? = some entries) :
    Entries.Distinct entries := by
  cases value <;> simp only [Value.entries?, reduceCtorEq, Option.some.injEq] at hentries
  · subst hentries
    exact Entries.Distinct.nil.put (.string _)
  · subst hentries
    exact distinct_table.1 h

-- ---------------------------------------------------------------------------
-- Reading values
-- ---------------------------------------------------------------------------

/-- All values that are read with the reader are without double keys. -/
def ReadsDistinct (value : List Char → Option (Value × List Char)) : Prop :=
  ∀ {text rest : List Char} {v : Value}, value text = some (v, rest) → v.Distinct

variable {read : List Char → Option (Value × List Char)} {limit : Nat}

theorem distinct_items (hread : ReadsDistinct read)
    (h : items? read limit text = some (items, rest)) : ∀ item ∈ items, item.Distinct := by
  fun_induction items? read limit text generalizing items rest with
  | case1 =>
    cases h
    nofun
  | case2 => cases h
  | case3 limit text _ ih =>
    obtain ⟨⟨item, after⟩, hitem, h⟩ := Option.bind_eq_some_iff.1 h
    dsimp only at h
    split at h
    · obtain ⟨⟨more, last⟩, hmore, h⟩ := Option.map_eq_some_iff.1 h
      cases h
      exact List.forall_mem_cons.2 ⟨hread hitem, ih _ hmore⟩
    · cases h
      exact List.forall_mem_singleton.2 (hread hitem)
    · cases h

theorem distinct_keyValue (hread : ReadsDistinct read) {pair : List String × Value}
    (h : keyValue? read text = some (pair, rest)) : pair.2.Distinct := by
  obtain ⟨⟨key, after⟩, -, h⟩ := Option.bind_eq_some_iff.1 h
  dsimp only at h
  split at h
  · obtain ⟨⟨v, last⟩, hv, h⟩ := Option.map_eq_some_iff.1 h
    cases h
    exact hread hv
  · cases h

theorem distinct_pairs (hread : ReadsDistinct read)
    (h : pairs? read limit text = some (pairs, rest)) : ∀ pair ∈ pairs, pair.2.Distinct := by
  induction limit generalizing text pairs rest with
  | zero => cases h
  | succ limit ih =>
    obtain ⟨⟨first, after⟩, hfirst, h⟩ := Option.bind_eq_some_iff.1 h
    dsimp only at h
    split at h
    · obtain ⟨⟨more, last⟩, hmore, h⟩ := Option.map_eq_some_iff.1 h
      cases h
      exact List.forall_mem_cons.2 ⟨distinct_keyValue hread hfirst, ih hmore⟩
    · cases h
      exact List.forall_mem_singleton.2 (distinct_keyValue hread hfirst)
    · cases h

theorem distinct_foldlM_define (hpairs : ∀ pair ∈ pairs, pair.2.Distinct)
    (hentries : entries.Distinct)
    (h : pairs.foldlM (fun entries (key, value) => Entries.define value key entries) entries =
      some changed) : Entries.Distinct changed := by
  induction pairs generalizing entries with
  | nil =>
    cases h
    exact hentries
  | cons pair pairs ih =>
    obtain ⟨hpair, hpairs⟩ := List.forall_mem_cons.1 hpairs
    obtain ⟨next, hnext, h⟩ := Option.bind_eq_some_iff.1 h
    exact ih hpairs (hentries.define hpair hnext) h

theorem readsDistinct_plain : ReadsDistinct plain? := by
  intro text rest v h
  unfold plain? at h
  dsimp only at h
  split at h
  · cases h
    exact .boolean true
  split at h
  · cases h
    exact .boolean false
  split at h
  · cases h
    exact .datetime _
  split at h
  · cases h
    exact .float _
  · obtain ⟨n, -, h⟩ := Option.map_eq_some_iff.1 h
    cases h
    exact .integer n

theorem readsDistinct_valueUpTo (depth : Nat) : ReadsDistinct (valueUpTo? depth) := by
  induction depth with
  | zero =>
    intro text rest v h
    unfold valueUpTo? at h
    split at h
    · cases h
    split at h
    · obtain ⟨⟨s, after⟩, -, h⟩ := Option.map_eq_some_iff.1 h
      cases h
      exact .string _
    · exact readsDistinct_plain h
  | succ depth ih =>
    intro text rest v h
    unfold valueUpTo? at h
    split at h
    · cases h
    split at h
    · obtain ⟨⟨s, after⟩, -, h⟩ := Option.map_eq_some_iff.1 h
      cases h
      exact .string _
    dsimp only at h
    split at h
    · obtain ⟨⟨items, after⟩, hitems, h⟩ := Option.map_eq_some_iff.1 h
      cases h
      exact .array (distinct_items ih hitems)
    split at h
    · split at h
      · cases h
        exact distinct_table.2 .nil
      · obtain ⟨⟨pairs, after⟩, hpairs, h⟩ := Option.bind_eq_some_iff.1 h
        obtain ⟨entries, hentries, h⟩ := Option.map_eq_some_iff.1 h
        cases h
        exact distinct_table.2 (distinct_foldlM_define (distinct_pairs ih hpairs) .nil hentries)
    · exact readsDistinct_plain h

-- ---------------------------------------------------------------------------
-- Reading documents
-- ---------------------------------------------------------------------------

namespace Reading

variable {reading next : Reading}

theorem distinct_header {element : Bool} (h : Entries.Distinct reading.root)
    (hheader : reading.header element path = some next) : Entries.Distinct next.root := by
  obtain ⟨key, -, hheader⟩ := Option.bind_eq_some_iff.1 hheader
  obtain ⟨root, hroot, rfl⟩ := Option.map_eq_some_iff.1 hheader
  refine h.change (fun hbefore hafter => ?_) hroot
  split at hafter
  · exact hbefore.openElement hafter
  · exact hbefore.openTable hafter

theorem distinct_define (h : Entries.Distinct reading.root) (hvalue : value.Distinct)
    (hdefine : reading.define path value = some next) : Entries.Distinct next.root := by
  obtain ⟨root, hroot, rfl⟩ := Option.map_eq_some_iff.1 hdefine
  exact h.change (fun hbefore hafter => hbefore.define hvalue hafter) hroot

theorem distinct_line (h : Entries.Distinct reading.root)
    (hline : reading.line text = some (next, rest)) : Entries.Distinct next.root := by
  unfold line at hline
  split at hline
  · obtain ⟨⟨path, after⟩, -, hline⟩ := Option.bind_eq_some_iff.1 hline
    dsimp only at hline
    split at hline
    · obtain ⟨after, -, hline⟩ := Option.bind_eq_some_iff.1 hline
      obtain ⟨found, hfound, hline⟩ := Option.map_eq_some_iff.1 hline
      cases hline
      exact distinct_header h hfound
    · cases hline
  · obtain ⟨⟨path, after⟩, -, hline⟩ := Option.bind_eq_some_iff.1 hline
    dsimp only at hline
    split at hline
    · obtain ⟨after, -, hline⟩ := Option.bind_eq_some_iff.1 hline
      obtain ⟨found, hfound, hline⟩ := Option.map_eq_some_iff.1 hline
      cases hline
      exact distinct_header h hfound
    · cases hline
  · split at hline
    · cases hline
      exact h
    · obtain ⟨⟨⟨key, value⟩, after⟩, hpair, hline⟩ := Option.bind_eq_some_iff.1 hline
      obtain ⟨after, -, hline⟩ := Option.bind_eq_some_iff.1 hline
      obtain ⟨found, hfound, hline⟩ := Option.map_eq_some_iff.1 hline
      cases hline
      exact distinct_define h (distinct_keyValue (readsDistinct_valueUpTo 79) hpair) hfound

theorem distinct_lines (h : Entries.Distinct reading.root)
    (hlines : lines limit reading text = some next) : Entries.Distinct next.root := by
  fun_induction lines limit reading text with
  | case1 =>
    cases hlines
    exact h
  | case2 => cases hlines
  | case3 limit reading text _ ih =>
    obtain ⟨⟨found, after⟩, hfound, hlines⟩ := Option.bind_eq_some_iff.1 hlines
    exact ih _ _ (distinct_line h hfound) hlines

end Reading

theorem distinct_document {text : String} (h : document? text = some entries) :
    Entries.Distinct entries := by
  obtain ⟨reading, hreading, rfl⟩ := Option.map_eq_some_iff.1 h
  exact Reading.distinct_lines .nil hreading

end ViewRollout.Toml
