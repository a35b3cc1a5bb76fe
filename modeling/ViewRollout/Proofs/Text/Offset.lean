import ViewRollout.Text.Fold
import ViewRollout.Text.Utf8

/-!
# Offsets into a text

Offsets count the bytes of a text, and a text can be cut only where a
character begins (`cut?_eq_some_iff`). Read as characters of their codes, the
bytes of an ASCII character are the character itself, and those of any other
one are beyond ASCII too. So readers that tell only ASCII characters apart do
the same on the bytes as on the text.
-/

namespace ViewRollout.Text

variable {text front back part : List Char} {offset start stop : Nat}

-- ---------------------------------------------------------------------------
-- Cutting a text
-- ---------------------------------------------------------------------------

/-- The text in two at an offset; none when no character begins there. -/
def cut? : Nat → List Char → Option (List Char × List Char)
  | 0, text => some ([], text)
  | _ + 1, [] => none
  | n + 1, c :: rest =>
    if c.utf8Size ≤ n + 1 then
      (cut? (n + 1 - c.utf8Size) rest).map fun (front, back) => (c :: front, back)
    else none

def textTo? (stop : Nat) (text : List Char) : Option (List Char) :=
  (cut? stop text).map (·.1)

def textFrom? (start : Nat) (text : List Char) : Option (List Char) :=
  (cut? start text).map (·.2)

/-- The text between two offsets; none when they are in the wrong order or no character begins at
one of them. -/
def slice? (start stop : Nat) (text : List Char) : Option (List Char) :=
  (textTo? stop text).bind (textFrom? start)

theorem byteSize_pos (h : text ≠ []) : 0 < byteSize text := by
  obtain ⟨c, rest, rfl⟩ := List.exists_cons_of_ne_nil h
  have hc := c.utf8Size_pos
  rw [byteSize]
  omega

theorem byteSize_eq_zero_iff : byteSize text = 0 ↔ text = [] := by
  refine ⟨fun h => Classical.byContradiction fun hne => ?_, fun h => h ▸ rfl⟩
  exact Nat.ne_of_gt (byteSize_pos hne) h

theorem byteOffset_eq {place : Nat} (ht : text = front ++ back) (hl : front.length = place) :
    byteOffset text place = byteSize front := by
  rw [byteOffset, ht, ← hl, List.take_left]

theorem byteOffset_append (front back : List Char) (place : Nat) :
    byteOffset (front ++ back) (front.length + place) = byteSize front + byteOffset back place := by
  rw [byteOffset, byteOffset, List.take_length_add_append, byteSize_append]

theorem cut?_append (front back : List Char) :
    cut? (byteSize front) (front ++ back) = some (front, back) := by
  induction front with
  | nil => rw [byteSize, List.nil_append, cut?]
  | cons c front ih =>
    obtain ⟨n, hn⟩ : ∃ n, byteSize (c :: front) = n + 1 :=
      Nat.exists_eq_add_one.2 (byteSize_pos (List.cons_ne_nil c front))
    have hsize : byteSize (c :: front) = c.utf8Size + byteSize front := rfl
    rw [hn, List.cons_append, cut?, if_pos (by omega),
      show n + 1 - c.utf8Size = byteSize front by omega, ih]
    rfl

theorem cut?_eq_some_iff :
    cut? offset text = some (front, back) ↔ text = front ++ back ∧ byteSize front = offset := by
  constructor
  · intro h
    fun_induction cut? offset text generalizing front back with
    | case1 text =>
      cases h
      exact ⟨rfl, rfl⟩
    | case2 => cases h
    | case3 n c rest hle ih =>
      obtain ⟨⟨inner, last⟩, hcut, h⟩ := Option.map_eq_some_iff.1 h
      cases h
      obtain ⟨rfl, hsize⟩ := ih hcut
      refine ⟨rfl, ?_⟩
      rw [byteSize, hsize]
      omega
    | case4 => cases h
  · rintro ⟨rfl, rfl⟩
    exact cut?_append front back

/-- Characters begin at different offsets. -/
theorem byteOffset_inj {place place' : Nat} (hp : place ≤ text.length) (hp' : place' ≤ text.length)
    (h : byteOffset text place = byteOffset text place') : place = place' := by
  have hcut := cut?_append (text.take place) (text.drop place)
  have hcut' := cut?_append (text.take place') (text.drop place')
  rw [List.take_append_drop] at hcut hcut'
  rw [byteOffset, byteOffset] at h
  rw [h, hcut', Option.some.injEq, Prod.mk.injEq] at hcut
  simpa [hp, hp'] using congrArg List.length hcut.1.symm

theorem textTo?_eq_some_iff :
    textTo? stop text = some front ↔ ∃ back, text = front ++ back ∧ byteSize front = stop := by
  simp only [textTo?, Option.map_eq_some_iff, Prod.exists, cut?_eq_some_iff, exists_and_right,
    exists_eq_right]

theorem textFrom?_eq_some_iff :
    textFrom? start text = some back ↔ ∃ front, text = front ++ back ∧ byteSize front = start := by
  simp only [textFrom?, Option.map_eq_some_iff, Prod.exists, cut?_eq_some_iff, exists_eq_right]

theorem byteSize_of_textFrom? (h : textFrom? start text = some back) :
    byteSize text = start + byteSize back := by
  obtain ⟨front, rfl, rfl⟩ := textFrom?_eq_some_iff.1 h
  exact byteSize_append front back

/-- A slice is what stands between its offsets, each of them where a character begins. -/
theorem slice?_eq_some_iff :
    slice? start stop text = some part ↔ ∃ front back, text = front ++ (part ++ back) ∧
      byteSize front = start ∧ start + byteSize part = stop := by
  simp only [slice?, Option.bind_eq_some_iff, textTo?_eq_some_iff, textFrom?_eq_some_iff]
  constructor
  · rintro ⟨begun, ⟨back, rfl, hstop⟩, front, rfl, hstart⟩
    rw [byteSize_append, hstart] at hstop
    exact ⟨front, back, List.append_assoc .., hstart, hstop⟩
  · rintro ⟨front, back, rfl, hstart, hstop⟩
    refine ⟨front ++ part, ⟨back, (List.append_assoc ..).symm, ?_⟩, front, rfl, hstart⟩
    rw [byteSize_append, hstart, hstop]

-- An offset inside of a character cuts nothing.
example : slice? 1 2 ['é'] = none ∧ slice? 0 2 ['é'] = some ['é'] := by decide

-- ---------------------------------------------------------------------------
-- Bytes
-- ---------------------------------------------------------------------------

def charUnits (c : Char) : List Char :=
  Bytes.chars (String.utf8EncodeChar c)

/-- The bytes of a text, each read as the character of its code. -/
def units (text : List Char) : List Char :=
  Bytes.chars (encode text)

theorem units_eq_flatMap (text : List Char) : units text = text.flatMap charUnits := by
  rw [units, Bytes.chars, encode, List.map_flatMap]
  rfl

theorem units_append (a b : List Char) : units (a ++ b) = units a ++ units b := by
  simp only [units_eq_flatMap, List.flatMap_append]

theorem length_units (text : List Char) : (units text).length = byteSize text := by
  rw [units, Bytes.chars, List.length_map, length_encode]

theorem length_charUnits (c : Char) : (charUnits c).length = c.utf8Size := by
  rw [charUnits, Bytes.chars, List.length_map, String.length_utf8EncodeChar]

theorem toNat_ofUInt8 (byte : UInt8) : (Char.ofUInt8 byte).toNat = byte.toNat :=
  UInt8.toNat_toUInt32 byte

theorem charUnits_of_ascii {c : Char} (h : c.toNat < 0x80) : charUnits c = [c] := by
  have hsize : c.utf8Size = 1 := by
    rw [Char.utf8Size_eq_one_iff, UInt32.le_iff_toNat_le]
    exact Nat.le_of_lt_succ h
  rw [charUnits, String.utf8EncodeChar_eq_singleton hsize, Bytes.chars, List.map_singleton]
  congr 1
  rw [← Char.toNat_inj, toNat_ofUInt8, UInt32.toNat_toUInt8]
  exact Nat.mod_eq_of_lt (Nat.lt_trans h (by decide))

theorem le_toNat_ofNat {n : Nat} (h : 0x80 ≤ n) (hlt : n < 0x100) :
    0x80 ≤ (Char.ofUInt8 (UInt8.ofNat n)).toNat := by
  rwa [toNat_ofUInt8, UInt8.toNat_ofNat', Nat.mod_eq_of_lt hlt]

/-- The bytes of a character beyond ASCII are all beyond it. -/
theorem le_of_mem_charUnits {c u : Char} (h : 0x80 ≤ c.toNat) (hu : u ∈ charUnits c) :
    0x80 ≤ u.toNat := by
  have hv : ¬c.val.toNat ≤ 127 := Nat.not_le_of_lt h
  rw [charUnits, Bytes.chars, List.mem_map] at hu
  obtain ⟨byte, hbyte, rfl⟩ := hu
  rw [String.utf8EncodeChar] at hbyte
  rw [if_neg hv] at hbyte
  split at hbyte
  · simp only [List.mem_cons, List.not_mem_nil, or_false] at hbyte
    rcases hbyte with rfl | rfl <;> exact le_toNat_ofNat (by omega) (by omega)
  split at hbyte <;> simp only [List.mem_cons, List.not_mem_nil, or_false] at hbyte
  · rcases hbyte with rfl | rfl | rfl <;> exact le_toNat_ofNat (by omega) (by omega)
  · rcases hbyte with rfl | rfl | rfl | rfl <;> exact le_toNat_ofNat (by omega) (by omega)

theorem utf8Size_of_ascii {c : Char} (h : c.toNat < 0x80) : c.utf8Size = 1 := by
  rw [← length_charUnits, charUnits_of_ascii h, List.length_singleton]

theorem ne_of_high {c d : Char} (hc : 0x80 ≤ c.toNat) (hd : d.toNat < 0x80) : c ≠ d := by
  rintro rfl
  omega

theorem charUnits_ne_nil (c : Char) : charUnits c ≠ [] := by
  intro h
  have hc := c.utf8Size_pos
  rw [← length_charUnits, h] at hc
  exact Nat.lt_irrefl 0 hc

/-- Every character begins with a byte that is either the character itself or, like it, beyond
ASCII. -/
theorem exists_charUnits (c : Char) :
    ∃ u more, charUnits c = u :: more ∧ (c.toNat < 0x80 → u = c ∧ more = []) ∧
      (0x80 ≤ c.toNat → 0x80 ≤ u.toNat ∧ ∀ v ∈ more, 0x80 ≤ v.toNat) := by
  obtain ⟨u, more, h⟩ := List.exists_cons_of_ne_nil (charUnits_ne_nil c)
  refine ⟨u, more, h, fun hc => ?_, fun hc => ?_⟩
  · rw [charUnits_of_ascii hc] at h
    cases h
    exact ⟨rfl, rfl⟩
  · have hall : ∀ v ∈ u :: more, 0x80 ≤ v.toNat := fun v hv => le_of_mem_charUnits hc (h ▸ hv)
    exact List.forall_mem_cons.1 hall

theorem units_cons (c : Char) (rest : List Char) :
    units (c :: rest) = charUnits c ++ units rest := by
  simp only [units_eq_flatMap, List.flatMap_cons]

theorem units_cons_of_ascii {c : Char} (h : c.toNat < 0x80) (rest : List Char) :
    units (c :: rest) = c :: units rest := by
  rw [units_cons, charUnits_of_ascii h, List.singleton_append]

theorem units_of_all_ascii {text : List Char} (h : ∀ c ∈ text, c.toNat < 0x80) :
    units text = text := by
  induction text with
  | nil => rfl
  | cons c text ih =>
    obtain ⟨hc, htext⟩ := List.forall_mem_cons.1 h
    rw [units_cons_of_ascii hc, ih htext]

/-- The first byte of a text is no other ASCII character than its first character. -/
theorem exists_units_cons (c : Char) (rest : List Char) :
    ∃ u more, units (c :: rest) = u :: more ∧ ∀ d : Char, d.toNat < 0x80 → c ≠ d → u ≠ d := by
  obtain ⟨u, more, hu, hascii, hhigh⟩ := exists_charUnits c
  refine ⟨u, more ++ units rest, by rw [units_cons, hu, List.cons_append], fun d hd hne => ?_⟩
  rcases Nat.lt_or_ge c.toNat 0x80 with hc | hc
  · rwa [(hascii hc).1]
  · exact ne_of_high (hhigh hc).1 hd

theorem head?_units_eq_iff {d : Char} (hd : d.toNat < 0x80) :
    (units text).head? = some d ↔ text.head? = some d := by
  cases text with
  | nil => rfl
  | cons c rest =>
    obtain ⟨u, more, hu, hne⟩ := exists_units_cons c rest
    rw [hu, List.head?_cons, List.head?_cons, Option.some.injEq, Option.some.injEq]
    constructor
    · exact fun h => Classical.byContradiction fun hcd => hne d hd hcd h
    · rintro rfl
      rw [units_cons_of_ascii hd] at hu
      exact (List.cons.inj hu).1.symm

theorem findIdx?_first {p : Char → Bool} {c : Char}
    (hf : ∀ c ∈ front, p c = false) (hc : p c = true) :
    (front ++ c :: back).findIdx? p = some front.length := by
  rw [List.findIdx?_append, List.findIdx?_eq_none_iff.2 hf, List.findIdx?_cons, if_pos hc]
  simp

theorem drop_units (ht : text = front ++ back) (hs : byteSize front = offset) :
    (units text).drop offset = units back := by
  rw [ht, units_append, ← hs, ← length_units, List.drop_left]

theorem getElem?_units (ht : text = front ++ back) (hs : byteSize front = offset) :
    (units text)[offset]? = (units back).head? := by
  rw [← List.head?_drop, drop_units ht hs]

/-- An ASCII character is one byte, and the bytes of what follows it begin just behind. -/
theorem getElem?_units_ascii {c : Char} (hc : c.toNat < 0x80) (ht : text = front ++ c :: back)
    (hs : byteSize front = offset) :
    (units text)[offset]? = some c ∧ (units text)[offset + 1]? = (units back).head? := by
  have hat : text = front ++ [c] ++ back := by rw [ht, List.append_assoc, List.singleton_append]
  have hone : byteSize (front ++ [c]) = offset + 1 := by
    rw [byteSize_append, hs, byteSize, utf8Size_of_ascii hc]
    rfl
  refine ⟨?_, getElem?_units hat hone⟩
  rw [getElem?_units ht hs, units_cons_of_ascii hc, List.head?_cons]

-- ---------------------------------------------------------------------------
-- Telling characters apart
-- ---------------------------------------------------------------------------

/-- Bytes are like their characters in this respect. -/
def Bytewise (p : Char → Bool) : Prop :=
  ∀ c, ∀ u ∈ charUnits c, p u = p c

theorem bytewise_of_high {p : Char → Bool} {b : Bool} (h : ∀ c, 0x80 ≤ c.toNat → p c = b) :
    Bytewise p := by
  intro c u hu
  rcases Nat.lt_or_ge c.toNat 0x80 with hc | hc
  · rw [charUnits_of_ascii hc, List.mem_singleton] at hu
    rw [hu]
  · rw [h c hc, h u (le_of_mem_charUnits hc hu)]

theorem of_mem_units {p : Char → Bool} {b : Bool} (hp : Bytewise p) (h : ∀ c ∈ text, p c = b) :
    ∀ u ∈ units text, p u = b := by
  intro u hu
  rw [units_eq_flatMap, List.mem_flatMap] at hu
  obtain ⟨c, hc, hu⟩ := hu
  rw [hp c u hu, h c hc]

/-- The first byte tells as much as the first character. -/
theorem any_head?_units {p : Char → Bool} (hp : Bytewise p) (text : List Char) :
    (units text).head?.any p = text.head?.any p := by
  cases text with
  | nil => rfl
  | cons c rest =>
    obtain ⟨u, more, hu, -⟩ := exists_charUnits c
    rw [units_cons, hu]
    exact hp c u (hu ▸ List.mem_cons_self ..)

theorem map_toLower_units (text : List Char) :
    (units text).map Char.toLower = units (text.map Char.toLower) := by
  induction text with
  | nil => rfl
  | cons c rest ih =>
    rw [List.map_cons, units_cons, units_cons, List.map_append, ih]
    congr 1
    rcases Nat.lt_or_ge c.toNat 0x80 with hc | hc
    · rw [charUnits_of_ascii hc, charUnits_of_ascii (toLower_of_ascii hc), List.map_singleton]
    · rw [toLower_of_high hc, List.map_congr_left fun u hu =>
        toLower_of_high (le_of_mem_charUnits hc hu), List.map_id']

theorem ofUInt8_inj {a b : UInt8} (h : Char.ofUInt8 a = Char.ofUInt8 b) : a = b := by
  rw [← Char.toNat_inj, toNat_ofUInt8, toNat_ofUInt8] at h
  exact UInt8.toNat_inj.1 h

/-- The bytes of a character do not begin with those of another one. -/
theorem charUnits_append_inj {c d : Char} {text more : List Char}
    (h : units (c :: text) = charUnits d ++ more) : c = d := by
  rw [units, Bytes.chars] at h
  obtain ⟨bytes, others, hbytes, hd, -⟩ := List.map_eq_append_iff.1 h
  obtain rfl : bytes = String.utf8EncodeChar d :=
    (List.map_inj_right fun _ _ => ofUInt8_inj).1 hd
  have hdecode := congrArg (fun bytes => bytes.toByteArray.utf8DecodeChar? 0) hbytes
  simp only [encode, List.flatMap_cons, List.toByteArray_append,
    ByteArray.utf8DecodeChar?_utf8EncodeChar_append, Option.some.injEq] at hdecode
  exact hdecode

theorem exists_of_units_append {text word more : List Char}
    (h : units text = units word ++ more) : ∃ back, text = word ++ back ∧ more = units back := by
  induction word generalizing text with
  | nil => exact ⟨text, rfl, h.symm⟩
  | cons d word ih =>
    rw [units_cons, List.append_assoc] at h
    cases text with
    | nil => exact absurd (List.append_eq_nil_iff.1 h.symm).1 (charUnits_ne_nil d)
    | cons c text =>
      obtain rfl := charUnits_append_inj h
      rw [units_cons] at h
      obtain ⟨back, rfl, rfl⟩ := ih (List.append_cancel_left h)
      exact ⟨back, rfl, rfl⟩

end ViewRollout.Text
