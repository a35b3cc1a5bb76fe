import ViewRollout.Text.Fold

/-!
# Lower case in every script

Which small letters a text has in lower case, for all capitals there are. Of
the capitals beyond ASCII only the kelvin sign and the dotted I have small
letters with one of ASCII in them, so a word of ASCII without `i` and `k` can
be looked for by lowering ASCII alone (`LowerCase.isPrefix_iff`).
-/

namespace ViewRollout.Text

/-- The capitals in ranges: the code points of the first and the last, the step from one to the
next, and the code point of the small letter of the first. The others follow in the same steps. -/
def capitalRanges : List (Nat × Nat × Nat × Nat) := [
    (0x41, 0x5A, 1, 0x61), (0xC0, 0xD6, 1, 0xE0), (0xD8, 0xDE, 1, 0xF8), (0x100, 0x12E, 2, 0x101),
    (0x132, 0x136, 2, 0x133), (0x139, 0x147, 2, 0x13A), (0x14A, 0x176, 2, 0x14B),
    (0x178, 0x178, 1, 0xFF), (0x179, 0x17D, 2, 0x17A), (0x181, 0x181, 1, 0x253),
    (0x182, 0x184, 2, 0x183), (0x186, 0x186, 1, 0x254), (0x187, 0x187, 1, 0x188),
    (0x189, 0x18A, 1, 0x256), (0x18B, 0x18B, 1, 0x18C), (0x18E, 0x18E, 1, 0x1DD),
    (0x18F, 0x18F, 1, 0x259), (0x190, 0x190, 1, 0x25B), (0x191, 0x191, 1, 0x192),
    (0x193, 0x193, 1, 0x260), (0x194, 0x194, 1, 0x263), (0x196, 0x196, 1, 0x269),
    (0x197, 0x197, 1, 0x268), (0x198, 0x198, 1, 0x199), (0x19C, 0x19C, 1, 0x26F),
    (0x19D, 0x19D, 1, 0x272), (0x19F, 0x19F, 1, 0x275), (0x1A0, 0x1A4, 2, 0x1A1),
    (0x1A6, 0x1A6, 1, 0x280), (0x1A7, 0x1A7, 1, 0x1A8), (0x1A9, 0x1A9, 1, 0x283),
    (0x1AC, 0x1AC, 1, 0x1AD), (0x1AE, 0x1AE, 1, 0x288), (0x1AF, 0x1AF, 1, 0x1B0),
    (0x1B1, 0x1B2, 1, 0x28A), (0x1B3, 0x1B5, 2, 0x1B4), (0x1B7, 0x1B7, 1, 0x292),
    (0x1B8, 0x1B8, 1, 0x1B9), (0x1BC, 0x1BC, 1, 0x1BD), (0x1C4, 0x1C4, 1, 0x1C6),
    (0x1C5, 0x1C5, 1, 0x1C6), (0x1C7, 0x1C7, 1, 0x1C9), (0x1C8, 0x1C8, 1, 0x1C9),
    (0x1CA, 0x1CA, 1, 0x1CC), (0x1CB, 0x1DB, 2, 0x1CC), (0x1DE, 0x1EE, 2, 0x1DF),
    (0x1F1, 0x1F1, 1, 0x1F3), (0x1F2, 0x1F4, 2, 0x1F3), (0x1F6, 0x1F6, 1, 0x195),
    (0x1F7, 0x1F7, 1, 0x1BF), (0x1F8, 0x21E, 2, 0x1F9), (0x220, 0x220, 1, 0x19E),
    (0x222, 0x232, 2, 0x223), (0x23A, 0x23A, 1, 0x2C65), (0x23B, 0x23B, 1, 0x23C),
    (0x23D, 0x23D, 1, 0x19A), (0x23E, 0x23E, 1, 0x2C66), (0x241, 0x241, 1, 0x242),
    (0x243, 0x243, 1, 0x180), (0x244, 0x244, 1, 0x289), (0x245, 0x245, 1, 0x28C),
    (0x246, 0x24E, 2, 0x247), (0x370, 0x372, 2, 0x371), (0x376, 0x376, 1, 0x377),
    (0x37F, 0x37F, 1, 0x3F3), (0x386, 0x386, 1, 0x3AC), (0x388, 0x38A, 1, 0x3AD),
    (0x38C, 0x38C, 1, 0x3CC), (0x38E, 0x38F, 1, 0x3CD), (0x391, 0x3A1, 1, 0x3B1),
    (0x3A3, 0x3AB, 1, 0x3C3), (0x3CF, 0x3CF, 1, 0x3D7), (0x3D8, 0x3EE, 2, 0x3D9),
    (0x3F4, 0x3F4, 1, 0x3B8), (0x3F7, 0x3F7, 1, 0x3F8), (0x3F9, 0x3F9, 1, 0x3F2),
    (0x3FA, 0x3FA, 1, 0x3FB), (0x3FD, 0x3FF, 1, 0x37B), (0x400, 0x40F, 1, 0x450),
    (0x410, 0x42F, 1, 0x430), (0x460, 0x480, 2, 0x461), (0x48A, 0x4BE, 2, 0x48B),
    (0x4C0, 0x4C0, 1, 0x4CF), (0x4C1, 0x4CD, 2, 0x4C2), (0x4D0, 0x52E, 2, 0x4D1),
    (0x531, 0x556, 1, 0x561), (0x10A0, 0x10C5, 1, 0x2D00), (0x10C7, 0x10C7, 1, 0x2D27),
    (0x10CD, 0x10CD, 1, 0x2D2D), (0x13A0, 0x13EF, 1, 0xAB70), (0x13F0, 0x13F5, 1, 0x13F8),
    (0x1C89, 0x1C89, 1, 0x1C8A), (0x1C90, 0x1CBA, 1, 0x10D0), (0x1CBD, 0x1CBF, 1, 0x10FD),
    (0x1E00, 0x1E94, 2, 0x1E01), (0x1E9E, 0x1E9E, 1, 0xDF), (0x1EA0, 0x1EFE, 2, 0x1EA1),
    (0x1F08, 0x1F0F, 1, 0x1F00), (0x1F18, 0x1F1D, 1, 0x1F10), (0x1F28, 0x1F2F, 1, 0x1F20),
    (0x1F38, 0x1F3F, 1, 0x1F30), (0x1F48, 0x1F4D, 1, 0x1F40), (0x1F59, 0x1F5F, 2, 0x1F51),
    (0x1F68, 0x1F6F, 1, 0x1F60), (0x1F88, 0x1F8F, 1, 0x1F80), (0x1F98, 0x1F9F, 1, 0x1F90),
    (0x1FA8, 0x1FAF, 1, 0x1FA0), (0x1FB8, 0x1FB9, 1, 0x1FB0), (0x1FBA, 0x1FBB, 1, 0x1F70),
    (0x1FBC, 0x1FBC, 1, 0x1FB3), (0x1FC8, 0x1FCB, 1, 0x1F72), (0x1FCC, 0x1FCC, 1, 0x1FC3),
    (0x1FD8, 0x1FD9, 1, 0x1FD0), (0x1FDA, 0x1FDB, 1, 0x1F76), (0x1FE8, 0x1FE9, 1, 0x1FE0),
    (0x1FEA, 0x1FEB, 1, 0x1F7A), (0x1FEC, 0x1FEC, 1, 0x1FE5), (0x1FF8, 0x1FF9, 1, 0x1F78),
    (0x1FFA, 0x1FFB, 1, 0x1F7C), (0x1FFC, 0x1FFC, 1, 0x1FF3), (0x2126, 0x2126, 1, 0x3C9),
    (0x212A, 0x212A, 1, 0x6B), (0x212B, 0x212B, 1, 0xE5), (0x2132, 0x2132, 1, 0x214E),
    (0x2160, 0x216F, 1, 0x2170), (0x2183, 0x2183, 1, 0x2184), (0x24B6, 0x24CF, 1, 0x24D0),
    (0x2C00, 0x2C2F, 1, 0x2C30), (0x2C60, 0x2C60, 1, 0x2C61), (0x2C62, 0x2C62, 1, 0x26B),
    (0x2C63, 0x2C63, 1, 0x1D7D), (0x2C64, 0x2C64, 1, 0x27D), (0x2C67, 0x2C6B, 2, 0x2C68),
    (0x2C6D, 0x2C6D, 1, 0x251), (0x2C6E, 0x2C6E, 1, 0x271), (0x2C6F, 0x2C6F, 1, 0x250),
    (0x2C70, 0x2C70, 1, 0x252), (0x2C72, 0x2C72, 1, 0x2C73), (0x2C75, 0x2C75, 1, 0x2C76),
    (0x2C7E, 0x2C7F, 1, 0x23F), (0x2C80, 0x2CE2, 2, 0x2C81), (0x2CEB, 0x2CED, 2, 0x2CEC),
    (0x2CF2, 0x2CF2, 1, 0x2CF3), (0xA640, 0xA66C, 2, 0xA641), (0xA680, 0xA69A, 2, 0xA681),
    (0xA722, 0xA72E, 2, 0xA723), (0xA732, 0xA76E, 2, 0xA733), (0xA779, 0xA77B, 2, 0xA77A),
    (0xA77D, 0xA77D, 1, 0x1D79), (0xA77E, 0xA786, 2, 0xA77F), (0xA78B, 0xA78B, 1, 0xA78C),
    (0xA78D, 0xA78D, 1, 0x265), (0xA790, 0xA792, 2, 0xA791), (0xA796, 0xA7A8, 2, 0xA797),
    (0xA7AA, 0xA7AA, 1, 0x266), (0xA7AB, 0xA7AB, 1, 0x25C), (0xA7AC, 0xA7AC, 1, 0x261),
    (0xA7AD, 0xA7AD, 1, 0x26C), (0xA7AE, 0xA7AE, 1, 0x26A), (0xA7B0, 0xA7B0, 1, 0x29E),
    (0xA7B1, 0xA7B1, 1, 0x287), (0xA7B2, 0xA7B2, 1, 0x29D), (0xA7B3, 0xA7B3, 1, 0xAB53),
    (0xA7B4, 0xA7C2, 2, 0xA7B5), (0xA7C4, 0xA7C4, 1, 0xA794), (0xA7C5, 0xA7C5, 1, 0x282),
    (0xA7C6, 0xA7C6, 1, 0x1D8E), (0xA7C7, 0xA7C9, 2, 0xA7C8), (0xA7CB, 0xA7CB, 1, 0x264),
    (0xA7CC, 0xA7DA, 2, 0xA7CD), (0xA7DC, 0xA7DC, 1, 0x19B), (0xA7F5, 0xA7F5, 1, 0xA7F6),
    (0xFF21, 0xFF3A, 1, 0xFF41), (0x10400, 0x10427, 1, 0x10428), (0x104B0, 0x104D3, 1, 0x104D8),
    (0x10570, 0x1057A, 1, 0x10597), (0x1057C, 0x1058A, 1, 0x105A3), (0x1058C, 0x10592, 1, 0x105B3),
    (0x10594, 0x10595, 1, 0x105BB), (0x10C80, 0x10CB2, 1, 0x10CC0), (0x10D50, 0x10D65, 1, 0x10D70),
    (0x118A0, 0x118BF, 1, 0x118C0), (0x16E40, 0x16E5F, 1, 0x16E60), (0x16EA0, 0x16EB8, 1, 0x16EBB),
    (0x1E900, 0x1E921, 1, 0x1E922)]

/-- Whether one of the capitals of the range has the code point. -/
def hasCapital (code : Nat) : Nat × Nat × Nat × Nat → Bool
  | (first, last, step, _) => first ≤ code && code ≤ last && (code - first) % step == 0

def smallCode (code : Nat) : Nat :=
  match capitalRanges.find? (hasCapital code) with
  | some (first, _, _, small) => small + (code - first)
  | none => code

def small (c : Char) : List Char :=
  -- The dot of the dotted capital I stays, as a combining mark.
  if c = 'İ' then ['i', '\u0307'] else [Char.ofNat (smallCode c.toNat)]

/-- The second text is the first one in lower case. A capital sigma becomes another small letter at
the end of a word than elsewhere; here it may be either anywhere. -/
inductive LowerCase : List Char → List Char → Prop where
  | nil : LowerCase [] []
  | char {c : Char} {text low : List Char} : LowerCase text low →
      LowerCase (c :: text) (small c ++ low)
  | finalSigma {text low : List Char} : LowerCase text low → LowerCase ('Σ' :: text) ('ς' :: low)

variable {c : Char} {text low word : List Char}

theorem exists_lowerCase (text : List Char) : ∃ low, LowerCase text low := by
  induction text with
  | nil => exact ⟨[], .nil⟩
  | cons c text ih =>
    obtain ⟨low, h⟩ := ih
    exact ⟨small c ++ low, .char h⟩

theorem bounds_of_hasCapital {code : Nat} {range : Nat × Nat × Nat × Nat}
    (h : hasCapital code range = true) : range.1 ≤ code ∧ code ≤ range.2.1 := by
  simp only [hasCapital, Bool.and_eq_true, decide_eq_true_eq] at h
  exact h.1

theorem smallCode_of_ascii {code : Nat} (h : code < 0x80) :
    smallCode code = if 0x41 ≤ code ∧ code ≤ 0x5A then code + 0x20 else code := by
  -- All ranges but the first lie beyond ASCII.
  have htail : ∀ range ∈ capitalRanges.tail, 0x80 ≤ range.1 := by decide +kernel
  have hnone : capitalRanges.tail.find? (hasCapital code) = none := by
    refine List.find?_eq_none.2 fun range hm hcode => ?_
    have hfirst := htail range hm
    have hb := bounds_of_hasCapital hcode
    omega
  have hsplit : capitalRanges = (0x41, 0x5A, 1, 0x61) :: capitalRanges.tail := rfl
  rw [smallCode, hsplit, List.find?_cons, hnone]
  by_cases hc : 0x41 ≤ code ∧ code ≤ 0x5A
  · have hcapital : hasCapital code (0x41, 0x5A, 1, 0x61) = true := by
      simp [hasCapital, hc, Nat.mod_one]
    rw [hcapital, if_pos hc]
    dsimp only
    omega
  · rw [Bool.eq_false_iff.2 fun hcapital => hc (bounds_of_hasCapital hcapital), if_neg hc]

theorem small_of_ascii (h : c.toNat < 0x80) : small c = [c.toLower] := by
  have hall : ∀ n < 0x80, Char.ofNat n ≠ 'İ' ∧
      Char.ofNat (if 0x41 ≤ n ∧ n ≤ 0x5A then n + 0x20 else n) = (Char.ofNat n).toLower := by
    decide +kernel
  have hc := hall c.toNat h
  rw [Char.ofNat_toNat] at hc
  rw [small, if_neg hc.1, smallCode_of_ascii h, hc.2]

/-- Beyond ASCII only the kelvin sign has a small letter in ASCII. -/
theorem smallCode_of_high {code : Nat} (h : 0x80 ≤ code) :
    smallCode code = 'k'.toNat ∨ 0x80 ≤ smallCode code := by
  have htable : ∀ range ∈ capitalRanges, range.2.1 < 0x80 ∨ 0x80 ≤ range.2.2.2 ∨
      range.2.1 = range.1 ∧ range.2.2.2 = 'k'.toNat := by
    decide +kernel
  unfold smallCode
  split
  · rename_i first last step small hfind
    have hb := bounds_of_hasCapital (List.find?_some hfind)
    have hrange := htable _ (List.mem_of_find?_eq_some hfind)
    dsimp only at hb hrange
    omega
  · exact .inr h

/-- A small letter of ASCII that no capital beyond ASCII brings about. -/
def IsPlainSmall (d : Char) : Prop :=
  d.isLower = true ∧ d ≠ 'i' ∧ d ≠ 'k'

instance : DecidablePred IsPlainSmall := fun _ => inferInstanceAs (Decidable (_ ∧ _))

theorem IsPlainSmall.bounds {d : Char} (h : IsPlainSmall d) : 0 < d.toNat ∧ d.toNat < 0x80 := by
  have hlower : (decide ('a'.val ≤ d.val) && decide (d.val ≤ 'z'.val)) = true := h.1
  simp only [Bool.and_eq_true, decide_eq_true_eq, UInt32.le_iff_toNat_le] at hlower
  change 97 ≤ d.toNat ∧ d.toNat ≤ 122 at hlower
  omega

theorem not_isPlainSmall_of_high (h : 0x80 ≤ c.toNat) : ¬IsPlainSmall c := by
  intro hc
  have := hc.bounds
  omega

theorem toNat_ofNat (n : Nat) : (Char.ofNat n).toNat = n ∨ (Char.ofNat n).toNat = 0 := by
  by_cases h : n.isValidChar
  · rw [Char.ofNat, dif_pos h]
    exact .inl rfl
  · rw [Char.ofNat, dif_neg h]
    exact .inr rfl

theorem exists_small_of_high (h : 0x80 ≤ c.toNat) :
    ∃ d rest, small c = d :: rest ∧ ¬IsPlainSmall d := by
  rw [small]
  split
  · exact ⟨'i', _, rfl, by decide⟩
  · refine ⟨_, [], rfl, fun hd => ?_⟩
    have hb := hd.bounds
    rcases smallCode_of_high h with hk | hhigh
    · rw [hk] at hd
      exact hd.2.2 rfl
    · have := toNat_ofNat (smallCode c.toNat)
      omega

theorem not_prefix_of_not_plain {d : Char} {rest : List Char} (hd : ¬IsPlainSmall d)
    (hw : ∀ e ∈ word, IsPlainSmall e) : ¬d :: rest <+: word := by
  intro h
  exact hd (hw d (h.subset (List.mem_cons_self ..)))

theorem LowerCase.eq_nil_iff (h : LowerCase text low) : low = [] ↔ text = [] := by
  cases h with
  | nil => simp
  | @char c text low _ =>
    rcases Nat.lt_or_ge c.toNat 0x80 with hc | hc
    · simp [small_of_ascii hc]
    · obtain ⟨d, rest, hsmall, -⟩ := exists_small_of_high hc
      simp [hsmall]
  | finalSigma => simp

/-- Whether a text in lower case begins a word of such letters is seen when ASCII is lowered. -/
theorem LowerCase.isPrefix_iff (h : LowerCase text low) (hw : ∀ d ∈ word, IsPlainSmall d) :
    low <+: word ↔ text.map Char.toLower <+: word := by
  induction h generalizing word with
  | nil => simp
  | @char c text low _ ih =>
    rcases Nat.lt_or_ge c.toNat 0x80 with hc | hc
    · rw [small_of_ascii hc, List.singleton_append, List.map_cons]
      cases word with
      | nil => simp
      | cons d word =>
        rw [List.cons_prefix_cons, List.cons_prefix_cons, ih (List.forall_mem_cons.1 hw).2]
    · obtain ⟨d, rest, hsmall, hd⟩ := exists_small_of_high hc
      rw [hsmall, List.cons_append, List.map_cons, toLower_of_high hc]
      exact iff_of_false (not_prefix_of_not_plain hd hw)
        (not_prefix_of_not_plain (not_isPlainSmall_of_high hc) hw)
  | @finalSigma text low _ ih =>
    exact iff_of_false (not_prefix_of_not_plain (by decide) hw)
      (not_prefix_of_not_plain (by decide) hw)

end ViewRollout.Text
