import Mathlib.Data.Nat.Basic
import Mathlib.Tactic.Common
import MonkeySyntax.Source.Position

/-! # The bytes of a text

Offsets are counted in the bytes of the UTF-8 form of a text, and so are the lengths of texts. In this
form a line feed is one byte, which is a part of no other character.

* **`bytesOf text`** — the bytes of a text; `length_bytesOf` says how many there are.
* `toUTF8_eq`, `fromUTF8?_toUTF8` — a string is stored as the bytes of its text, and is read from them.
* **`mem_bytesOf`**, **`count_bytesOf`** — the line feeds of a text can be told from its bytes.
* `take_bytesOf_append` — the bytes before an offset behind a first part. -/

namespace MonkeySyntax

/-- **The bytes of a text** in its UTF-8 form. -/
def bytesOf (text : List Char) : List UInt8 :=
  text.flatMap String.utf8EncodeChar

@[simp] theorem bytesOf_nil : bytesOf [] = [] := rfl

@[simp] theorem bytesOf_cons (c : Char) (text : List Char) :
    bytesOf (c :: text) = String.utf8EncodeChar c ++ bytesOf text := rfl

@[simp] theorem bytesOf_append (text other : List Char) :
    bytesOf (text ++ other) = bytesOf text ++ bytesOf other :=
  List.flatMap_append

/-- There are as many bytes as the length of the text says. -/
@[simp] theorem length_bytesOf (text : List Char) : (bytesOf text).length = byteLength text := by
  induction text with
  | nil => rfl
  | cons c text ih =>
    rw [bytesOf_cons, List.length_append, String.length_utf8EncodeChar, ih, byteLength_cons]

/-- **A string is stored as the bytes of its text.** -/
theorem toUTF8_eq (s : String) : s.toUTF8 = (bytesOf s.toList).toByteArray := by
  rw [String.toUTF8_eq_toByteArray, ← String.utf8Encode_toList]
  rfl

/-- **A string is read** from the bytes that it is stored as. -/
theorem fromUTF8?_toUTF8 (s : String) : String.fromUTF8? s.toUTF8 = some s := by
  have hvalid : s.toUTF8.IsValidUTF8 := s.isValidUTF8
  rw [String.fromUTF8?, dif_pos hvalid]
  rfl

/-! ### Bytes in an array -/

/-- The items of an array of bytes from a place on, which stand behind those that have been read. -/
theorem toList_loop_eq (bytes : ByteArray) (i : Nat) (read : List UInt8) :
    ByteArray.toList.loop bytes i read = read.reverse ++ bytes.data.toList.drop i := by
  fun_induction ByteArray.toList.loop bytes i read with
  | case1 i read hlt ih =>
    have hi : i < bytes.data.toList.length := hlt
    have hget : bytes.get! i = bytes.data.toList[i] := getElem!_pos bytes.data i hi
    rw [ih, List.reverse_cons, List.append_assoc, List.singleton_append, hget,
      ← List.drop_eq_getElem_cons hi]
  | case2 i read hge =>
    rw [List.drop_eq_nil_of_le (Nat.le_of_not_lt hge), List.append_nil]

/-- The bytes that an array was made of. -/
@[simp] theorem toList_toByteArray (bytes : List UInt8) : bytes.toByteArray.toList = bytes := by
  rw [ByteArray.toList, toList_loop_eq, List.toList_data_toByteArray]
  rfl

/-! ### Line feeds -/

/-- **The byte of the line feed** is the only one of its character, and in no other character. -/
theorem mem_utf8EncodeChar {c : Char} : 10 ∈ String.utf8EncodeChar c ↔ c = '\n' := by
  constructor
  · intro h
    have hbyte {n : Nat} (hn : n < 256) (hten : 10 = UInt8.ofNat n) : n = 10 := by
      have htoNat := congrArg UInt8.toNat hten
      rw [UInt8.toNat_ofNat', Nat.mod_eq_of_lt hn] at htoNat
      exact htoNat.symm
    unfold String.utf8EncodeChar at h
    simp only at h
    split at h
    · have hval := hbyte (by omega) (List.mem_singleton.1 h)
      exact Char.ext (UInt32.toNat_inj.1 hval)
    · -- no byte of a longer character is below 128
      exfalso
      split at h
      · simp only [List.mem_cons, List.not_mem_nil, or_false] at h
        rcases h with h | h <;> exact absurd (hbyte (by omega) h) (by omega)
      · split at h
        · simp only [List.mem_cons, List.not_mem_nil, or_false] at h
          rcases h with h | h | h <;> exact absurd (hbyte (by omega) h) (by omega)
        · simp only [List.mem_cons, List.not_mem_nil, or_false] at h
          rcases h with h | h | h | h <;> exact absurd (hbyte (by omega) h) (by omega)
  · rintro rfl
    decide

/-- A text has the byte of the line feed exactly if it has a line feed. -/
theorem mem_bytesOf {text : List Char} : 10 ∈ bytesOf text ↔ '\n' ∈ text := by
  simp only [bytesOf, List.mem_flatMap, mem_utf8EncodeChar, exists_eq_right]

/-- **The line feeds of a text** can be counted in its bytes. -/
theorem count_bytesOf (text : List Char) : (bytesOf text).count 10 = text.count '\n' := by
  induction text with
  | nil => rfl
  | cons c text ih =>
    rw [bytesOf_cons, List.count_append, ih]
    by_cases hc : c = '\n'
    · subst hc
      rw [List.count_cons_self, Nat.add_comm]
      rfl
    · rw [List.count_eq_zero_of_not_mem (mt mem_utf8EncodeChar.1 hc), List.count_cons_of_ne hc,
        Nat.zero_add]

/-- The bytes before an offset behind a first part are those of this part and some more. -/
theorem take_bytesOf_append (text other : List Char) (n : Nat) :
    (bytesOf (text ++ other)).take (byteLength text + n) = bytesOf text ++ (bytesOf other).take n := by
  rw [bytesOf_append, ← length_bytesOf, List.take_length_add_append]

end MonkeySyntax
