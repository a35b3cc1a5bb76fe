/-!
# UTF-8

Files, input and output are bytes; a text is written to them in UTF-8. Offsets into a text are
counted in its bytes.
-/

namespace ViewRollout

abbrev Bytes := List UInt8

namespace Text

def byteSize : List Char → Nat
  | [] => 0
  | c :: rest => c.utf8Size + byteSize rest

def byteOffset (text : List Char) (place : Nat) : Nat :=
  byteSize (text.take place)

def encode (text : List Char) : Bytes :=
  text.flatMap String.utf8EncodeChar

def bytes (text : String) : Bytes :=
  encode text.toList

def decode? (bytes : Bytes) : Option String :=
  String.fromUTF8? ⟨bytes.toArray⟩

theorem byteSize_append (a b : List Char) : byteSize (a ++ b) = byteSize a + byteSize b := by
  induction a with
  | nil => simp [byteSize]
  | cons c a ih => simp [byteSize, ih, Nat.add_assoc]

theorem encode_append (a b : List Char) : encode (a ++ b) = encode a ++ encode b := by
  simp [encode]

theorem length_encode (text : List Char) : (encode text).length = byteSize text := by
  induction text with
  | nil => rfl
  | cons c rest ih =>
    have : (String.utf8EncodeChar c).length = c.utf8Size := String.length_utf8EncodeChar c
    simp_all [encode, byteSize]

theorem bytes_append (s t : String) : bytes (s ++ t) = bytes s ++ bytes t := by
  rw [bytes, String.toList_append, encode_append]
  rfl

theorem bytes_inj {s t : String} : bytes s = bytes t ↔ s = t := by
  refine ⟨fun h => ?_, fun h => h ▸ rfl⟩
  have hbytes (s : String) : s.toByteArray = (bytes s).toByteArray := by
    rw [← String.ofList_toList (s := s), String.toByteArray_ofList, String.ofList_toList]
    rfl
  exact String.toByteArray_inj.1 (by rw [hbytes, hbytes, h])

end Text

/-- The bytes, each read as the character of its code. Every byte of a character beyond ASCII
becomes a character beyond ASCII, so a reader that tells only ASCII characters apart finds in the
bytes of a text what it finds in the text. -/
def Bytes.chars (bytes : Bytes) : List Char :=
  bytes.map Char.ofUInt8

end ViewRollout
