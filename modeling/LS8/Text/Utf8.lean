/-!
# UTF-8

Bytes as text. A byte string is text exactly when it is the encoding of some characters, and then
of only one string of them (`decode?_eq_some_iff`).
-/

namespace LS8

namespace Text

def encode (text : List Char) : List UInt8 :=
  text.flatMap String.utf8EncodeChar

theorem encode_append (s t : List Char) : encode (s ++ t) = encode s ++ encode t :=
  List.flatMap_append

/-- The characters that the bytes encode, unless they are not UTF-8. -/
def decode? (bytes : List UInt8) : Option (List Char) :=
  bytes.toByteArray.utf8Decode?.map Array.toList

@[simp] theorem decode?_encode (text : List Char) : decode? (encode text) = some text := by
  have : (encode text).toByteArray = text.utf8Encode := rfl
  simp [decode?, this, List.utf8Decode?_utf8Encode]

theorem encode_of_decode? {bytes : List UInt8} {text : List Char} (h : decode? bytes = some text) :
    encode text = bytes := by
  obtain ⟨chars, hchars, rfl⟩ := Option.map_eq_some_iff.1 h
  have hsome : bytes.toByteArray.utf8Decode?.isSome = true := by simp [hchars]
  have := ByteArray.utf8Encode_get_utf8Decode? (b := bytes.toByteArray) (h := hsome)
  simp only [hchars, Option.get_some] at this
  exact List.toByteArray_inj.1 this

theorem decode?_eq_some_iff {bytes : List UInt8} {text : List Char} :
    decode? bytes = some text ↔ encode text = bytes :=
  ⟨encode_of_decode?, fun h => h ▸ decode?_encode text⟩

end Text

end LS8
