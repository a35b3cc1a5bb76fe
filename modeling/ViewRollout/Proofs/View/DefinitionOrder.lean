import Mathlib.Data.List.Induction
import ViewRollout.Proofs.Sql.Seam
import ViewRollout.Proofs.View.Edit
import ViewRollout.View.Dependencies

/-!
# Definition before use

`definition_before_use`: in the chain of an expanded view the body of a
dependency stands behind the bodies of all the views that it referred to and
that were held when it was added. A view keeps what it took in at that time,
also when the views it came from are replaced later. So a place of the chain
is followed down through the additions before it (`Stands`), and each step
down leaves fewer of them.
-/

namespace ViewRollout.View

open Sql (Defect append_eq_append_cons_iff)

namespace Dependencies

/-- What is held once the views have been added one after the other. -/
def insertAll (views : List View) : Except Defect Dependencies :=
  views.foldlM insert empty

/-- Of the views that were added, `given` is the last one of its name. It came behind `earlier`
and is held as `view`. -/
inductive Keeps : List View → View → View → List View → Prop where
  | mk {earlier later : List View} {given view : View} {before : Dependencies} :
      insertAll earlier = .ok before → before.expand given = .ok view →
      (∀ other ∈ later, other.name ≠ given.name) →
      Keeps (earlier ++ given :: later) view given earlier

/-- Where a CTE comes from. -/
inductive Origin where
  /-- A view brought it along. -/
  | own
  /-- It is the body of the view that was added behind the earlier ones. -/
  | body (given : View) (earlier : List View)

/-- In the chain of the consumer, expanded by what is held of the views, the CTE stands right
behind `front`. -/
inductive Stands : List View → View → (front : List Cte) → Cte → Origin → Prop where
  | own {views : List View} {consumer : View} {front behind : List Cte} {cte : Cte} :
      consumer.ctes = front ++ cte :: behind → Stands views consumer front cte .own
  | body {views used more earlier : List View} {consumer view given : View}
      {held : Dependencies} :
      insertAll views = .ok held → held.referredToBy consumer = used ++ view :: more →
      Keeps views view given earlier →
      Stands views consumer (consumer.ctes ++ (used.flatMap asCtes ++ view.ctes))
        ⟨view.name, asGroup view.body⟩ (.body given earlier)
  | nested {views used more earlier : List View} {consumer view given : View}
      {held : Dependencies} {front : List Cte} {cte : Cte} {origin : Origin} :
      insertAll views = .ok held → held.referredToBy consumer = used ++ view :: more →
      Keeps views view given earlier → Stands earlier given front cte origin →
      Stands views consumer (consumer.ctes ++ (used.flatMap asCtes ++ front)) cte origin

variable {views earlier : List View} {view given consumer result : View} {held : Dependencies}
variable {front : List Cte} {cte : Cte} {origin : Origin}

-- ---------------------------------------------------------------------------
-- Expanding
-- ---------------------------------------------------------------------------

theorem exists_firstFrom {name : String} (h : consumer.refersTo name = true) :
    ∃ start, consumer.FirstFrom start := by
  cases hf : consumer.from? with
  | none => simp [refersTo, references, hf] at h
  | some start => exact ⟨start, from?_eq_some_iff.1 hf⟩

/-- A view that refers to another one has a FROM, so it can be expanded. -/
theorem exists_expand (held : Dependencies) (consumer : View) :
    ∃ result, held.expand consumer = .ok result ∧ result.name = consumer.name ∧
      result.ctes = consumer.ctes ++ (held.referredToBy consumer).flatMap asCtes := by
  rw [expand]
  cases hu : held.referredToBy consumer with
  | nil => exact ⟨consumer, rfl, rfl, by simp⟩
  | cons view used =>
    have hm : view ∈ held.referredToBy consumer := by simp [hu]
    have hrefers : consumer.refersTo view.name = true := by
      simp only [referredToBy, List.mem_filter, Bool.and_eq_true] at hm
      exact hm.2.2
    obtain ⟨start, hfrom⟩ := exists_firstFrom hrefers
    exact ⟨_, inline_of_firstFrom hfrom (view :: used), rfl, rfl⟩

theorem name_of_expand (h : held.expand consumer = .ok result) : result.name = consumer.name := by
  obtain ⟨result', he, hn, -⟩ := exists_expand held consumer
  obtain rfl := Except.ok.inj (h.symm.trans he)
  exact hn

theorem ctes_of_expand (h : held.expand consumer = .ok result) :
    result.ctes = consumer.ctes ++ (held.referredToBy consumer).flatMap asCtes := by
  obtain ⟨result', he, -, hc⟩ := exists_expand held consumer
  obtain rfl := Except.ok.inj (h.symm.trans he)
  exact hc

-- ---------------------------------------------------------------------------
-- Adding
-- ---------------------------------------------------------------------------

theorem insertAll_concat (h : insertAll views = .ok held)
    (he : held.expand given = .ok view) :
    insertAll (views ++ [given]) = .ok ⟨put view held.views⟩ := by
  rw [insertAll] at h ⊢
  rw [List.foldlM_append, h]
  show (List.foldlM insert held [given]) = _
  simp only [List.foldlM_cons, List.foldlM_nil, insert, he]
  rfl

theorem exists_insertAll (views : List View) : ∃ held, insertAll views = .ok held := by
  induction views using List.reverseRecOn with
  | nil => exact ⟨empty, rfl⟩
  | append_singleton views given ih =>
    obtain ⟨held, h⟩ := ih
    obtain ⟨view, he, -⟩ := exists_expand held given
    exact ⟨_, insertAll_concat h he⟩

/-- What holds of no views, and still holds when one more was added, holds of every list of views
and what is held of them. -/
@[elab_as_elim]
theorem insertAll_induction {P : List View → Dependencies → Prop} (nil : P [] empty)
    (add : ∀ views before given view, insertAll views = .ok before →
      before.expand given = .ok view → P views before →
      P (views ++ [given]) ⟨put view before.views⟩)
    (h : insertAll views = .ok held) : P views held := by
  induction views using List.reverseRecOn generalizing held with
  | nil =>
    obtain rfl := Except.ok.inj h
    exact nil
  | append_singleton views given ih =>
    obtain ⟨before, hb⟩ := exists_insertAll views
    obtain ⟨view, he, -⟩ := exists_expand before given
    obtain rfl := Except.ok.inj (h.symm.trans (insertAll_concat hb he))
    exact add views before given view hb he (ih hb)

-- ---------------------------------------------------------------------------
-- What is held
-- ---------------------------------------------------------------------------

theorem map_name_put (view : View) (views : List View) :
    (put view views).map (·.name) =
      if view.name ∈ views.map (·.name) then views.map (·.name)
      else views.map (·.name) ++ [view.name] := by
  induction views with
  | nil => rfl
  | cons head rest ih =>
    rw [put]
    by_cases h : head.name = view.name
    · simp [h]
    · have hne : view.name ≠ head.name := fun he => h he.symm
      simp only [if_neg h, List.map_cons, ih, List.mem_cons, hne, false_or]
      split <;> rfl

theorem names_of_insertAll (h : insertAll views = .ok held) :
    held.views.map (·.name) = (views.map (·.name)).eraseDups := by
  refine insertAll_induction ?nil ?add h
  case nil => rfl
  case add =>
    intro views before given view _ he ih
    rw [map_name_put, ih, name_of_expand he, List.map_append, List.eraseDups_append]
    simp only [List.mem_eraseDups, List.map_cons, List.map_nil, List.removeAll, List.elem_eq_mem,
      List.filter_cons, List.filter_nil]
    by_cases hm : given.name ∈ views.map (·.name)
    · simp [hm]
    · simp [hm, List.eraseDups_cons]

theorem nodup_names (h : insertAll views = .ok held) : (held.views.map (·.name)).Nodup := by
  refine insertAll_induction ?nil ?add h
  case nil => exact .nil
  case add =>
    intro views before given view _ _ ih
    rw [map_name_put]
    split
    · exact ih
    · rename_i hn
      refine List.nodup_append.2 ⟨ih, by simp, fun name hname other ho => ?_⟩
      obtain rfl := List.mem_singleton.1 ho
      exact ne_of_mem_of_not_mem hname hn

theorem mem_put (hn : (views.map (·.name)).Nodup) {other : View} (h : other ∈ put view views) :
    other = view ∨ other ∈ views ∧ other.name ≠ view.name := by
  induction views with
  | nil => exact .inl (List.mem_singleton.1 h)
  | cons head rest ih =>
    rw [List.map_cons, List.nodup_cons] at hn
    rw [put] at h
    split at h
    · rename_i he
      rcases List.mem_cons.1 h with rfl | hm
      · exact .inl rfl
      · refine .inr ⟨List.mem_cons_of_mem _ hm, fun hname => hn.1 ?_⟩
        rw [he, ← hname]
        exact List.mem_map_of_mem hm
    · rename_i hne
      rcases List.mem_cons.1 h with rfl | hm
      · exact .inr ⟨List.mem_cons_self .., hne⟩
      · rcases ih hn.2 hm with rfl | ⟨hm, hname⟩
        · exact .inl rfl
        · exact .inr ⟨List.mem_cons_of_mem _ hm, hname⟩

theorem Keeps.name_eq (h : Keeps views view given earlier) : view.name = given.name := by
  cases h with
  | mk _ he _ => exact name_of_expand he

theorem Keeps.concat (h : Keeps views view given earlier) {last : View}
    (hl : view.name ≠ last.name) : Keeps (views ++ [last]) view given earlier := by
  have hname := h.name_eq
  cases h with
  | @mk _ later _ _ _ hb he hlater =>
    rw [List.append_assoc, List.cons_append]
    refine .mk hb he fun other ho => ?_
    rcases List.mem_append.1 ho with ho | ho
    · exact hlater other ho
    · obtain rfl := List.mem_singleton.1 ho
      exact fun hn => hl (hname.trans hn.symm)

/-- Every view that is held is one that was added, expanded by what was held before. -/
theorem exists_keeps (h : insertAll views = .ok held) :
    ∀ view ∈ held.views, ∃ given earlier, Keeps views view given earlier := by
  refine insertAll_induction ?nil ?add h
  case nil => nofun
  case add =>
    intro views before given expanded hb he ih view hm
    rcases mem_put (nodup_names hb) hm with rfl | ⟨hm, hname⟩
    · exact ⟨given, views, .mk hb he nofun⟩
    · obtain ⟨given', earlier, hk⟩ := ih view hm
      rw [name_of_expand he] at hname
      exact ⟨given', earlier, hk.concat hname⟩

-- ---------------------------------------------------------------------------
-- Places in the chain
-- ---------------------------------------------------------------------------

/-- A place in the parts of a list lies in one of the parts. -/
theorem flatMap_eq_append_cons {α β : Type} {f : α → List β} {list : List α} {front behind : List β}
    {b : β} (h : list.flatMap f = front ++ b :: behind) :
    ∃ before a more within rest, list = before ++ a :: more ∧
      front = before.flatMap f ++ within ∧ f a = within ++ b :: rest := by
  induction list generalizing front with
  | nil =>
    rw [List.flatMap_nil] at h
    cases front <;> cases h
  | cons a list ih =>
    rw [List.flatMap_cons] at h
    rcases append_eq_append_cons_iff.1 h with ⟨rest, ha, -⟩ | ⟨within, rfl, hl⟩
    · exact ⟨[], a, list, front, rest, rfl, rfl, ha⟩
    · obtain ⟨before, a', more, within', rest, rfl, rfl, ha⟩ := ih hl
      exact ⟨a :: before, a', more, within', rest, rfl, by simp, ha⟩

/-- Every place of the expanded consumer's chain has an origin. -/
theorem exists_stands (h : insertAll views = .ok held) (hr : held.expand consumer = .ok result)
    {behind : List Cte} (hc : result.ctes = front ++ cte :: behind) :
    ∃ origin, Stands views consumer front cte origin := by
  induction hn : views.length using Nat.strongRecOn
    generalizing views held consumer result front behind with
  | _ n ih =>
    rw [ctes_of_expand hr] at hc
    rcases append_eq_append_cons_iff.1 hc with ⟨more, hown, -⟩ | ⟨inner, rfl, hused⟩
    · exact ⟨.own, .own hown⟩
    · obtain ⟨used, view, more, within, rest, hview, rfl, hctes⟩ := flatMap_eq_append_cons hused
      have hm : view ∈ held.referredToBy consumer := by simp [hview]
      obtain ⟨given, earlier, hk⟩ := exists_keeps h view (List.mem_filter.1 hm).1
      rcases append_eq_append_cons_iff.1 hctes with ⟨more', hinner, -⟩ | ⟨last, rfl, hlast⟩
      · have hk' := hk
        cases hk' with
        | @mk _ later _ _ before hb he _ =>
          have hlt : earlier.length < n := by
            rw [← hn, List.length_append, List.length_cons]
            omega
          obtain ⟨origin, hs⟩ := ih _ hlt hb he hinner rfl
          exact ⟨origin, .nested h hview hk hs⟩
      · cases last with
        | nil =>
          obtain ⟨rfl, -⟩ := List.cons.inj hlast
          rw [List.append_nil]
          exact ⟨_, .body h hview hk⟩
        | cons _ last => simp at hlast

theorem Stands.exists_behind (hs : Stands views consumer front cte origin)
    (h : insertAll views = .ok held) (hr : held.expand consumer = .ok result) :
    ∃ behind, result.ctes = front ++ cte :: behind := by
  induction hs generalizing held result with
  | @own _ consumer front behind cte hown =>
    exact ⟨behind ++ _, by rw [ctes_of_expand hr, hown, List.append_assoc, List.cons_append]⟩
  | @body views used more earlier consumer view given held' h' hview hk =>
    obtain rfl := Except.ok.inj (h.symm.trans h')
    refine ⟨more.flatMap asCtes, ?_⟩
    rw [ctes_of_expand hr, hview]
    simp [asCtes]
  | @nested views used more earlier consumer view given held' front cte origin h' hview hk _ ih =>
    obtain rfl := Except.ok.inj (h.symm.trans h')
    cases hk with
    | mk hb he _ =>
      obtain ⟨behind, hbehind⟩ := ih hb he
      refine ⟨behind ++ (⟨view.name, asGroup view.body⟩ :: more.flatMap asCtes), ?_⟩
      rw [ctes_of_expand hr, hview]
      simp [asCtes, hbehind]

-- ---------------------------------------------------------------------------
-- Definition before use
-- ---------------------------------------------------------------------------

/-- Where a body stands, every view that it referred to when it was added stands before it. -/
theorem Stands.defined (hs : Stands views consumer front cte (.body given earlier)) :
    ∃ before view, earlier ++ [given] <+: views ∧ insertAll earlier = .ok before ∧
      before.expand given = .ok view ∧ cte = ⟨given.name, asGroup view.body⟩ ∧
      ∀ other ∈ before.views, given.refersTo other.name = true → other.name ≠ given.name →
        ∃ defined ∈ front, defined.name = other.name := by
  generalize ho : Origin.body given earlier = origin at hs
  induction hs with
  | own => cases ho
  | @body views used more earlier' consumer view given' held h hview hk =>
    cases ho
    have hname := hk.name_eq
    cases hk with
    | @mk _ later _ _ before hb he _ =>
      refine ⟨before, view, ⟨later, by simp⟩, hb, he, by rw [hname], fun other hm hr hne => ?_⟩
      have hused : other ∈ before.referredToBy given := by
        simp [referredToBy, hm, hr, hne]
      have hdefined : ⟨other.name, asGroup other.body⟩ ∈
          (before.referredToBy given).flatMap asCtes :=
        List.mem_flatMap.2 ⟨other, hused, by simp [asCtes]⟩
      have hctes := List.mem_append_right given.ctes hdefined
      rw [← ctes_of_expand he] at hctes
      exact ⟨_, List.mem_append_right _ (List.mem_append_right _ hctes), rfl⟩
  | @nested views used more earlier' consumer view given' held front cte origin h hview hk _ ih =>
    obtain ⟨before, view', hp, hb, he, hcte, hall⟩ := ih ho
    refine ⟨before, view', ?_, hb, he, hcte, fun other hm hr hne => ?_⟩
    · cases hk with
      | mk => exact hp.trans (List.prefix_append _ _)
    · obtain ⟨defined, hd, hname⟩ := hall other hm hr hne
      exact ⟨defined, by simp [hd], hname⟩

/-- Views can always be added and taken in. Those that the consumer refers to stand in its chain in
the order in which their names were first added, each body right behind its view's own chain; and
wherever the body of an added view stands, all that the view referred to is defined before it. -/
theorem definition_before_use (views : List View) (consumer : View) :
    ∃ held result, insertAll views = .ok held ∧ held.expand consumer = .ok result ∧
      held.views.map (·.name) = (views.map (·.name)).eraseDups ∧
      result.ctes = consumer.ctes ++ (held.views.filter fun d =>
        d.name != consumer.name && consumer.refersTo d.name).flatMap
          (fun d => d.ctes ++ [⟨d.name, asGroup d.body⟩]) ∧
      (∀ front cte, (∃ behind, result.ctes = front ++ cte :: behind) ↔
        ∃ origin, Stands views consumer front cte origin) ∧
      ∀ front cte given earlier, Stands views consumer front cte (.body given earlier) →
        ∃ before view, earlier ++ [given] <+: views ∧ insertAll earlier = .ok before ∧
          before.expand given = .ok view ∧ cte = ⟨given.name, asGroup view.body⟩ ∧
          ∀ other ∈ before.views, given.refersTo other.name = true → other.name ≠ given.name →
            ∃ defined ∈ front, defined.name = other.name := by
  obtain ⟨held, h⟩ := exists_insertAll views
  obtain ⟨result, hr, -, hc⟩ := exists_expand held consumer
  refine ⟨held, result, h, hr, names_of_insertAll h, hc, fun front cte => ?_,
    fun _ _ _ _ hs => hs.defined⟩
  constructor
  · rintro ⟨behind, hplace⟩
    exact exists_stands h hr hplace
  · rintro ⟨origin, hs⟩
    exact hs.exists_behind h hr

end Dependencies

end ViewRollout.View
