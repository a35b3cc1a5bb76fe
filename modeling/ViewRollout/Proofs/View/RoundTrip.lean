import ViewRollout.Proofs.View.Chain
import ViewRollout.Proofs.View.HeaderLine
import ViewRollout.Proofs.View.HeaderSearch

/-!
# Reading a view that was written down

`parse_render`: a view whose parts can be told apart once they stand one
behind the other is read back as it was. The header is found because none
begins before it and code begins with it; the chain and the body are read
back as `readChain_chain` says.
-/

namespace ViewRollout.View

open Sql Text

/-- A view whose header, CTEs and body can be told apart when they are written down. -/
structure Sound (view : View) : Prop where
  /-- A header that does not end in AS must not find one behind it. -/
  header : ∃ ends, IsHeader view.name.toList ends view.header.toList ∧
    (ends = false → view.ctes ≠ [] ∨ as? view.body.toList = none)
  ctes : ∀ cte ∈ view.ctes, cte.Sound
  trimmed : trim view.body.toList = view.body.toList
  /-- The body does not look like one more CTE of the chain. -/
  body : (Introducer.first.behind view.ctes).read? (dropComments false view.body.toList) = none

/-- A preamble that ends before the header begins: it leaves the reader in code, and no header
begins in it. -/
structure PreambleApart (view : View) : Prop where
  trimmed : trim view.preamble.toList = view.preamble.toList
  apart : view.preamble = "" ∨
    finish .code (view.preamble.toList ++ ['\n']) = .code ∧
      ∀ place < view.preamble.toList.length, headerAt view.render.toList place = false

-- ---------------------------------------------------------------------------
-- The written text
-- ---------------------------------------------------------------------------

def front (view : View) : List Char :=
  if view.preamble = "" then [] else view.preamble.toList ++ ['\n']

def back (view : View) : List Char :=
  Introducer.first.chain view.ctes ++ view.body.toList

theorem toList_render (view : View) :
    view.render.toList = view.front ++ (view.header.toList ++ '\n' :: view.back) := by
  have hc : (renderCtes "WITH " view.ctes).toList = Introducer.first.chain view.ctes := rfl
  unfold render front back
  split <;> simp [hc]

theorem trim_front_of_trimmed {view : View}
    (h : trim view.preamble.toList = view.preamble.toList) :
    trim view.front = view.preamble.toList := by
  unfold front
  split
  · rename_i he
    rw [he]
    rfl
  · have ht := trim_eq_self_iff.1 h
    cases hp : view.preamble.toList with
    | nil => rfl
    | cons c rest =>
      rw [hp] at ht
      have hline : trimEnd ['\n'] = [] := rfl
      rw [trim, trimStart_eq_self (by simpa using ht.1), trimEnd_append ht.2, hline,
        List.append_nil]

theorem trim_front {view : View} (h : view.PreambleApart) :
    trim view.front = view.preamble.toList :=
  trim_front_of_trimmed h.trimmed

-- ---------------------------------------------------------------------------
-- The header
-- ---------------------------------------------------------------------------

/-- A line that ends in code hands the text behind it over to code. -/
theorem after_line (h : finish .code (line ++ ['\n']) = .code) (next : Option Char) :
    Cursor.code.after next (line ++ ['\n']) = Cursor.code := by
  rw [Cursor.after_concat (by decide)]
  exact Cursor.eq_code ((finish_code _).symm.trans h)
    (Cursor.taken_after_concat (by decide) _ _ _)

theorem after_front {view : View} (h : view.PreambleApart) (next : Option Char) :
    Cursor.code.after next view.front = Cursor.code := by
  unfold front
  split
  · rfl
  · rcases h.apart with he | ⟨hf, -⟩
    · contradiction
    · exact after_line hf next

theorem header?_newline (rest : List Char) : header? ('\n' :: rest) = none := by
  rw [header?, spacedKeyword?, keyword?_eq_none (by decide)]
  rfl

theorem no_header_in_front {view : View} (h : view.PreambleApart) {place : Nat}
    (hp : place < view.front.length) : ¬HeaderBegins view.render.toList place := by
  rcases h.apart with he | ⟨-, hn⟩
  · simp [front, he] at hp
  · by_cases he : view.preamble = ""
    · simp [front, he] at hp
    · have hf : view.front = view.preamble.toList ++ ['\n'] := if_neg he
      rw [hf, List.length_append, List.length_singleton] at hp
      by_cases hlt : place < view.preamble.toList.length
      · rw [headerBegins_iff, hn place hlt]
        exact Bool.false_ne_true
      · obtain rfl : place = view.preamble.toList.length := by omega
        intro hb
        obtain ⟨name, rest, hr⟩ := hb.exists_read
        rw [toList_render, hf, List.append_assoc, List.drop_left] at hr
        cases (header?_newline _).symm.trans hr

theorem boundary_front (view : View) :
    (view.render.toList.take view.front.length).getLast?.any isWordChar = false := by
  rw [toList_render, List.take_left]
  unfold front
  split
  · rfl
  · simp [isWordChar_newline]

theorem as?_back_iff {view : View} (h : trim view.body.toList = view.body.toList) :
    as? (trimStart view.back) = none ↔ view.ctes ≠ [] ∨ as? view.body.toList = none := by
  unfold back
  cases hc : view.ctes with
  | nil =>
    have ht := (trim_eq_self_iff.1 h).1
    simp [Introducer.chain_nil, trimStart_eq_self ht]
  | cons cte ctes =>
    have hn (rest : List Char) : as? (Introducer.first.written ++ rest) = none := rfl
    rw [Introducer.chain_cons, List.append_assoc,
      trimStart_eq_self (Introducer.head_not_blank .first _), hn]
    simp

theorem as?_back {view : View} (h : view.Sound)
    (ha : view.ctes ≠ [] ∨ as? view.body.toList = none) : as? (trimStart view.back) = none :=
  (as?_back_iff h.trimmed).2 ha

theorem findHeader?_render {view : View} (h : view.Sound) (hp : view.PreambleApart) :
    findHeader? view.render.toList =
      some ⟨view.front.length, view.name.toList, '\n' :: view.back⟩ := by
  obtain ⟨ends, hh, ha⟩ := h.header
  obtain ⟨c, more, hc, hf⟩ := hh.isHeaderText.head
  have hread : header? (view.render.toList.drop view.front.length) =
      some (view.name.toList, '\n' :: view.back) := by
    rw [toList_render, List.drop_left]
    exact header?_append hh fun he => as?_back h (ha he)
  -- The first letter of the header is code, since the front part ends in code.
  have hcode : codeAt view.render.toList view.front.length = true := by
    rw [toList_render, hc]
    exact codeAt_append (after_front hp (some c)) (stays_of_fold hf) _
  have hbegins : HeaderBegins view.render.toList view.front.length :=
    ⟨boundary_front view, isSome_header?_iff.1 (Option.isSome_iff_exists.2 ⟨_, hread⟩)⟩
  exact findHeader?_eq_some_iff.2
    ⟨firstHeader_of_no_earlier hcode hbegins fun _ hlt => no_header_in_front hp hlt, hread⟩

-- ---------------------------------------------------------------------------
-- The whole view
-- ---------------------------------------------------------------------------

theorem readCtes_of_sound {view : View} (hc : ∀ cte ∈ view.ctes, cte.Sound)
    (ht : trim view.body.toList = view.body.toList)
    (hb : (Introducer.first.behind view.ctes).read? (dropComments false view.body.toList) = none) :
    readCtes (String.ofList (trim ('\n' :: view.back))) = .ok (view.ctes, view.body) := by
  have hs : trim ('\n' :: view.back) = trim view.back := by
    rw [trim, trim, show trimStart ('\n' :: view.back) = trimStart view.back from
      List.dropWhile_cons_of_pos (by decide)]
  have hstart : trimStart (trim view.back) = trim view.back := trimStart_eq_self (head?_trim _)
  have hread : readChain (byteSize (trim view.back)) .first (trim view.back) =
      .ok (view.ctes, view.body.toList) :=
    readChain_chain hc ht hb _
  rw [readCtes, String.toList_ofList, hs, hstart, hread]
  show Except.ok (_, _) = _
  rw [String.ofList_toList]

theorem readCtes_back {view : View} (h : view.Sound) :
    readCtes (String.ofList (trim ('\n' :: view.back))) = .ok (view.ctes, view.body) :=
  readCtes_of_sound h.ctes h.trimmed h.body

theorem parse_of_parts {view : View}
    (hh : findHeader? view.render.toList =
      some ⟨view.front.length, view.name.toList, '\n' :: view.back⟩)
    (hp : trim view.front = view.preamble.toList)
    (hc : readCtes (String.ofList (trim ('\n' :: view.back))) = .ok (view.ctes, view.body)) :
    parse view.render = .ok view := by
  have hd : view.render.toList.drop view.front.length =
      view.header.toList ++ '\n' :: view.back := by
    rw [toList_render, List.drop_left]
  have ht : view.render.toList.take view.front.length = view.front := by
    rw [toList_render, List.take_left]
  have hl : (view.header.toList ++ '\n' :: view.back).length - ('\n' :: view.back).length =
      view.header.toList.length := by
    rw [List.length_append, Nat.add_sub_cancel]
  rw [parse, hh]
  simp only [hc, hd, ht, hp, hl, List.take_left, String.ofList_toList]
  rfl

/-- A view that is sound, with a preamble that stands apart, is read back as it was written. -/
theorem parse_render {view : View} (h : view.Sound) (hp : view.PreambleApart) :
    parse view.render = .ok view :=
  parse_of_parts (findHeader?_render h hp) (trim_front hp) (readCtes_back h)

/-- A view with all the parts there are: a comment and another statement before the header, a
qualifier, a quoted name, and parentheses that open and close nothing. -/
def sampleView : View where
  name := "sales"
  preamble := "-- daily\nDROP VIEW sales;"
  header := "create OR REPLACE  VIEW [my.rep].`sales` As"
  ctes := [⟨"recent", "(SELECT ')' FROM t)"⟩, ⟨"b", "( -- )\n1)"⟩]
  body := "-- all\nSELECT * FROM recent"

theorem parse_render_sampleView :
    sampleView.Sound ∧ sampleView.PreambleApart ∧ parse sampleView.render = .ok sampleView := by
  have hh : IsHeader sampleView.name.toList true sampleView.header.toList := by
    have hq : IsQualified ['s', 'a', 'l', 'e', 's']
        (('[' :: (['m', 'y', '.', 'r', 'e', 'p'] ++ [']'])) ++
          '.' :: backtick :: (['s', 'a', 'l', 'e', 's'] ++ [backtick])) :=
      .qualified (.bracket (by simp)) .ticked
    have hr : IsOrReplace (['O', 'R'] ++ ([' '] ++ (['R', 'E', 'P', 'L', 'A', 'C', 'E'] ++
        [' ', ' ']))) :=
      .present rfl (by decide) rfl (by decide)
    have ha : IsAs true ([' '] ++ ['A', 's']) := .present (by decide) rfl
    have hc : Spells ['C', 'R', 'E', 'A', 'T', 'E'] ['c', 'r', 'e', 'a', 't', 'e'] := rfl
    have hv : Spells ['V', 'I', 'E', 'W'] ['V', 'I', 'E', 'W'] := rfl
    have hg : IsGap [' '] := by decide
    exact .mk hc hg hr hv hg hq (by decide) ha
  have hs : sampleView.Sound := by
    refine ⟨⟨true, hh, nofun⟩, ?_, by decide, by decide⟩
    intro cte hm
    rcases List.mem_cons.1 hm with rfl | hm
    · exact ⟨by decide, by decide, rfl⟩
    · obtain rfl := List.mem_singleton.1 hm
      exact ⟨by decide, by decide, rfl⟩
  have hp : sampleView.PreambleApart := by
    refine ⟨by decide, .inr ⟨by decide, ?_⟩⟩
    decide +kernel
  exact ⟨hs, hp, parse_render hs hp⟩

end ViewRollout.View
