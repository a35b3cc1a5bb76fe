/-!
# Letters regardless of case

Keywords are matched by simple case folding: two letters agree when they fold to the same one.
Besides the other case of an ASCII letter this brings in the long s and the kelvin sign, the only
characters beyond ASCII that fold into it.
-/

namespace ViewRollout.Text

/-- The simple case folding, for the characters that fold into ASCII. -/
def fold (c : Char) : Char :=
  if c = 'ſ' then 's' else if c = '\u212A' then 'k' else c.toLower

theorem toLower_of_high {c : Char} (h : 0x80 ≤ c.toNat) : c.toLower = c := by
  have hu : ¬(c.val ≥ 'A'.val ∧ c.val ≤ 'Z'.val) := by
    simp only [UInt32.le_iff_toNat_le, ge_iff_le]
    change ¬(65 ≤ c.toNat ∧ c.toNat ≤ 90)
    omega
  exact dif_neg hu

/-- What holds of ASCII and of all that lower case leaves alone holds of every character. -/
theorem of_ascii_of_toLower_eq {p : Char → Prop} {c : Char} (h : ∀ n < 0x80, p (Char.ofNat n))
    (hc : c.toLower = c → p c) : p c := by
  rcases Nat.lt_or_ge c.toNat 0x80 with hlt | hge
  · have hn := h c.toNat hlt
    rwa [Char.ofNat_toNat] at hn
  · exact hc (toLower_of_high hge)

theorem toLower_of_ascii {c : Char} (h : c.toNat < 0x80) : c.toLower.toNat < 0x80 :=
  of_ascii_of_toLower_eq (p := fun c => c.toNat < 0x80 → c.toLower.toNat < 0x80) (by decide)
    (fun hc h => hc.symm ▸ h) h

def keyword? : List Char → List Char → Option (List Char)
  | [], text => some text
  | _ :: _, [] => none
  | k :: ks, c :: text => if fold k = fold c then keyword? ks text else none

theorem length_of_keyword? {word text rest : List Char} (h : keyword? word text = some rest) :
    text.length = word.length + rest.length := by
  induction word generalizing text with
  | nil => simp_all [keyword?]
  | cons k ks ih =>
    cases text with
    | nil => simp [keyword?] at h
    | cons c text =>
      rw [keyword?] at h
      split at h
      · have := ih h
        simp only [List.length_cons]
        omega
      · cases h

end ViewRollout.Text
