import ViewRollout.Proofs.View.HeldViews
import ViewRollout.Proofs.View.Leftover

/-!
# Expanding a view by a set of dependencies

Which held views are taken in and where the body is rewritten are settled by
the same search for references. So `expansion_never_fails`: a view that reads
one of those held has a FROM and loses a qualifier, and a view that reads none
stays what it is. And `unrelated_stay_apart`: an expansion depends on the held
views of the names that the view reads and on nothing else of the set, so
views that do not read each other can be added in either order.
-/

namespace ViewRollout.View

open Sql Text

-- ---------------------------------------------------------------------------
-- Edits make a text shorter
-- ---------------------------------------------------------------------------

/-- What stands before the name of a reference. -/
def qualification (r : Reference) : List Char :=
  '[' :: (r.qualifier ++ [']', '.'])

theorem written_eq (r : Reference) : r.written = qualification r ++ r.name := by
  simp [Reference.written, qualification]

theorem byteSize_qualification_pos (r : Reference) : 0 < byteSize (qualification r) := by
  rw [qualification, byteSize]
  exact Nat.add_pos_left (Char.utf8Size_pos '[') _

/-- An edit takes the qualifiers out of a text, each with its brackets and its dot. -/
theorem Edited.byteSize_eq {place : Nat} {refs : List Reference} {text result : List Char}
    (h : Edited place refs text result) :
    byteSize text = byteSize result + byteSize (refs.flatMap qualification) := by
  induction h with
  | kept => rfl
  | reduced _ _ ih =>
    rw [List.flatMap_cons, written_eq]
    simp only [byteSize_append, ih]
    omega

theorem Edited.byteSize_lt {place : Nat} {refs : List Reference} {text result : List Char}
    (h : Edited place refs text result) (hne : refs ≠ []) : byteSize result < byteSize text := by
  obtain ⟨r, refs, rfl⟩ := List.exists_cons_of_ne_nil hne
  have hpos := byteSize_qualification_pos r
  rw [h.byteSize_eq, List.flatMap_cons, byteSize_append]
  omega

/-- Where a dependency is referred to, there is something to reduce. -/
theorem reducedReferences_ne_nil {consumer dependency : View} {dependencies : List View}
    {start : Nat} (hf : consumer.FirstFrom start) (hd : dependency ∈ dependencies)
    (h : consumer.refersTo dependency.name = true) :
    reducedReferences consumer dependencies start ≠ [] := by
  obtain ⟨r, hr, hreads, hname⟩ := refersTo_iff.1 h
  have hknown : Known consumer dependencies r.name := .inr ⟨dependency, hd, .inr hname.symm⟩
  have hm := mem_reducedReferences.2 ⟨hr, (readsBy_iff hf).1 hreads, hknown⟩
  exact List.ne_nil_of_mem hm

namespace Dependencies

variable {views : List View} {view consumer result x y x' y' : View} {held : Dependencies}

-- ---------------------------------------------------------------------------
-- Expansion always succeeds
-- ---------------------------------------------------------------------------

/-- Whether the consumer takes in what is held under the name. -/
def takes (consumer : View) (name : String) : Bool :=
  name != consumer.name && consumer.refersTo name

theorem mem_referredToBy :
    view ∈ held.referredToBy consumer ↔ view ∈ held.views ∧ takes consumer view.name = true :=
  List.mem_filter

theorem takes_eq_false_iff {name : String} :
    takes consumer name = false ↔ consumer.refersTo name = false ∨ consumer.name = name := by
  rw [takes, Bool.and_eq_false_iff, bne_eq_false_iff_eq, or_comm, eq_comm (a := name)]

theorem byteSize_of_expand (h : held.expand consumer = .ok result)
    (hused : held.referredToBy consumer ≠ []) :
    byteSize result.body.toList < byteSize consumer.body.toList := by
  obtain ⟨view, used, hcons⟩ := List.exists_cons_of_ne_nil hused
  have hm : view ∈ held.referredToBy consumer := hcons ▸ List.mem_cons_self ..
  have hrefers : consumer.refersTo view.name = true :=
    (Bool.and_eq_true_iff.1 (mem_referredToBy.1 hm).2).2
  obtain ⟨start, hfrom⟩ := exists_firstFrom hrefers
  simp only [expand, hcons] at h
  have hreduced := reducedReferences_ne_nil hfrom (List.mem_cons_self (l := used)) hrefers
  exact (edited_inline hfrom h).1.byteSize_lt hreduced

theorem expand_of_nil (hused : held.referredToBy consumer = []) :
    held.expand consumer = .ok consumer := by
  rw [expand, hused]

/-- Views can be added and taken in without fail, whatever their texts are; in particular no view
is refused for having no FROM. A view is left as it is just when it refers to none of those held,
and else its body becomes shorter. -/
theorem expansion_never_fails :
    (∀ views, ∃ held, insertAll views = .ok held) ∧
    ∀ (held : Dependencies) (view : View),
      (∃ after, held.insert view = .ok after) ∧
      (∃ result, held.expand view = .ok result ∧
        (result = view ↔ held.referredToBy view = []) ∧
        (held.referredToBy view ≠ [] →
          byteSize result.body.toList < byteSize view.body.toList)) ∧
      ∀ name, held.insert view ≠ .error (.noFrom name) ∧
        held.expand view ≠ .error (.noFrom name) := by
  refine ⟨exists_insertAll, fun held view => ?_⟩
  obtain ⟨result, he, -, hi⟩ := exists_insert held view
  refine ⟨⟨_, hi⟩, ⟨result, he, ⟨?_, ?_⟩, byteSize_of_expand he⟩, fun name => ?_⟩
  · rintro rfl
    refine Classical.not_not.1 fun hused => ?_
    exact absurd (byteSize_of_expand he hused) (Nat.lt_irrefl _)
  · exact fun hused => Except.ok.inj (he.symm.trans (expand_of_nil hused))
  · rw [hi, he]
    exact ⟨nofun, nofun⟩

-- ---------------------------------------------------------------------------
-- What an expansion depends on
-- ---------------------------------------------------------------------------

/-- To put a view among others changes only what is selected under its name. -/
theorem filter_put (p : String → Bool) (view : View) (views : List View) :
    (put view views).filter (p ·.name) =
      if p view.name then put view (views.filter (p ·.name)) else views.filter (p ·.name) := by
  induction views with
  | nil => rw [put, List.filter_cons, List.filter_nil, put]
  | cons head rest ih =>
    rw [put]
    by_cases hhead : head.name = view.name
    · rw [if_pos hhead, List.filter_cons, List.filter_cons, hhead]
      by_cases hp : p view.name = true
      · simp [hp, put, hhead]
      · simp [hp]
    · rw [if_neg hhead, List.filter_cons, List.filter_cons, ih]
      by_cases hp : p view.name = true <;> by_cases hq : p head.name = true <;>
        simp [hp, hq, put, hhead]

theorem referredToBy_put (view : View) (views : List View) (consumer : View) :
    referredToBy ⟨put view views⟩ consumer =
      if takes consumer view.name then put view (referredToBy ⟨views⟩ consumer)
      else referredToBy ⟨views⟩ consumer :=
  filter_put (takes consumer) view views

theorem expand_congr {held' : Dependencies}
    (h : held.referredToBy consumer = held'.referredToBy consumer) :
    held.expand consumer = held'.expand consumer := by
  rw [expand, expand, h]

theorem expand_put (h : takes consumer view.name = false) :
    expand ⟨put view held.views⟩ consumer = held.expand consumer := by
  refine expand_congr ?_
  rw [referredToBy_put, h]
  rfl

/-- A view that does not take in the one added before it is held as if it were added alone. -/
theorem insertAll_two (h : insertAll views = .ok held) (hx : held.expand x = .ok x')
    (hy : held.expand y = .ok y') (hapart : takes y x.name = false) :
    insertAll (views ++ [x, y]) = .ok ⟨put y' (put x' held.views)⟩ := by
  have hafter : expand ⟨put x' held.views⟩ y = .ok y' := by
    rw [expand_put (by rwa [name_of_expand hx]), hy]
  rw [show views ++ [x, y] = views ++ [x] ++ [y] by simp]
  exact insertAll_concat (insertAll_concat h hx) hafter

theorem get?_put_comm (hne : x.name ≠ y.name) (views : List View) (name : String) :
    get? ⟨put y (put x views)⟩ name = get? ⟨put x (put y views)⟩ name := by
  simp only [get?_put]
  by_cases hname : name = x.name
  · simp [hname, hne]
  · simp [hname]

theorem expand_put_comm (h : takes consumer x.name = false ∨ takes consumer y.name = false)
    (views : List View) :
    expand ⟨put y (put x views)⟩ consumer = expand ⟨put x (put y views)⟩ consumer := by
  refine expand_congr ?_
  simp only [referredToBy_put]
  rcases h with h | h <;> simp [h]

/-- Adding a view leaves the expansion of every consumer as it was that does not refer to the view
or has its name. So two views of different names that do not refer to each other can be added in
either order: the same is held under every name, and every consumer that does not refer to both is
expanded to the same. -/
theorem unrelated_stay_apart (views : List View) :
    ∃ held, insertAll views = .ok held ∧
      (∀ x, ∃ after, held.insert x = .ok after ∧ ∀ consumer,
        (consumer.refersTo x.name = false ∨ consumer.name = x.name) →
        ∃ result, held.expand consumer = .ok result ∧ after.expand consumer = .ok result) ∧
      ∀ x y, x.name ≠ y.name → x.refersTo y.name = false → y.refersTo x.name = false →
        ∃ xy yx, insertAll (views ++ [x, y]) = .ok xy ∧ insertAll (views ++ [y, x]) = .ok yx ∧
          (∀ name, xy.get? name = yx.get? name) ∧
          ∀ consumer, ¬(consumer.refersTo x.name = true ∧ consumer.refersTo y.name = true) →
            ∃ result, xy.expand consumer = .ok result ∧ yx.expand consumer = .ok result := by
  obtain ⟨held, h⟩ := exists_insertAll views
  refine ⟨held, h, fun x => ?one, fun x y hne hxy hyx => ?two⟩
  case one =>
    obtain ⟨x', -, hname, hi⟩ := exists_insert held x
    refine ⟨_, hi, fun consumer hapart => ?_⟩
    obtain ⟨result, he, -⟩ := exists_expand held consumer
    refine ⟨result, he, ?_⟩
    rw [expand_put (by rwa [hname, takes_eq_false_iff]), he]
  case two =>
    obtain ⟨x', hx, hx', -⟩ := exists_insert held x
    obtain ⟨y', hy, hy', -⟩ := exists_insert held y
    refine ⟨_, _, insertAll_two h hx hy (takes_eq_false_iff.2 (.inl hyx)),
      insertAll_two h hy hx (takes_eq_false_iff.2 (.inl hxy)), fun name => ?_,
      fun consumer hboth => ?_⟩
    · exact get?_put_comm (by rwa [hx', hy']) held.views name
    · obtain ⟨result, he, -⟩ := exists_expand ⟨put y' (put x' held.views)⟩ consumer
      refine ⟨result, he, ?_⟩
      rw [← expand_put_comm ?_ held.views, he]
      rw [hx', hy', takes_eq_false_iff, takes_eq_false_iff]
      by_cases hreads : consumer.refersTo x.name = true
      · exact .inr (.inl (Bool.eq_false_iff.2 fun hr => hboth ⟨hreads, hr⟩))
      · exact .inl (.inl (Bool.eq_false_iff.2 hreads))

/-- A view that reads none of the views here. -/
def sideView : View where
  name := "side"
  preamble := ""
  header := "CREATE VIEW side AS"
  ctes := []
  body := "SELECT 2 FROM u"

/-- A view that reads another one, which reads a third. -/
def reportView : View where
  name := "report"
  preamble := ""
  header := "CREATE VIEW report AS"
  ctes := []
  body := "SELECT 3 FROM [w].top"

theorem unrelated_stay_apart_sample :
    twiceQualified.name ≠ sideView.name ∧ twiceQualified.refersTo sideView.name = false ∧
      sideView.refersTo twiceQualified.name = false ∧
      reportView.refersTo twiceQualified.name = true ∧
      ¬(reportView.refersTo twiceQualified.name = true ∧
        reportView.refersTo sideView.name = true) ∧
      ∃ xy yx, insertAll [lowView, twiceQualified, sideView] = .ok xy ∧
        insertAll [lowView, sideView, twiceQualified] = .ok yx ∧
        xy.get? "top" = yx.get? "top" ∧
        ∃ result, xy.expand reportView = .ok result ∧ yx.expand reportView = .ok result := by
  have hne : twiceQualified.name ≠ sideView.name := by decide
  have hxy : twiceQualified.refersTo sideView.name = false := by decide
  have hyx : sideView.refersTo twiceQualified.name = false := by decide
  have hreads : reportView.refersTo twiceQualified.name = true := by decide
  have hboth : ¬(reportView.refersTo twiceQualified.name = true ∧
      reportView.refersTo sideView.name = true) := by decide
  obtain ⟨_, -, -, htwo⟩ := unrelated_stay_apart [lowView]
  obtain ⟨xy, yx, h, h', hget, hexpand⟩ := htwo twiceQualified sideView hne hxy hyx
  exact ⟨hne, hxy, hyx, hreads, hboth, xy, yx, h, h', hget "top", hexpand reportView hboth⟩

end Dependencies

end ViewRollout.View
