import Mathlib.Data.List.Basic
import Mathlib.Tactic.Common

/-!
# UTF-8 over lists

Texts are lists of characters and contents of files are lists of bytes. A byte
below 128 never occurs inside the encoding of another character, so encoded text
can be cut at such bytes.
-/

namespace Library
namespace Utf8

/-- The encoding of a text. -/
def encode (text : List Char) : List UInt8 :=
  text.flatMap String.utf8EncodeChar

/-- Strict decoding: nothing unless the bytes encode a text. -/
def decode (bytes : List UInt8) : Option (List Char) :=
  bytes.toByteArray.utf8Decode?.map Array.toList

@[simp] theorem encode_nil : encode [] = [] := rfl

@[simp] theorem encode_cons (first : Char) (text : List Char) :
    encode (first :: text) = String.utf8EncodeChar first ++ encode text := rfl

@[simp] theorem encode_append (first second : List Char) :
    encode (first ++ second) = encode first ++ encode second :=
  List.flatMap_append

/-- Decoding inverts the encoding of lists. -/
theorem decode_eq_some {bytes : List UInt8} {text : List Char} :
    decode bytes = some text ↔ encode text = bytes := by
  unfold decode
  constructor
  · intro decoded
    obtain ⟨chars, isChars, rfl⟩ := Option.map_eq_some_iff.mp decoded
    have encoded := ByteArray.utf8Encode_get_utf8Decode?
      (h := Option.isSome_iff_exists.mpr ⟨chars, isChars⟩)
    simp only [isChars, Option.get_some] at encoded
    exact List.toByteArray_inj.mp encoded
  · rintro rfl
    change (text.utf8Encode.utf8Decode?).map Array.toList = some text
    simp

@[simp] theorem decode_encode (text : List Char) :
    decode (encode text) = some text :=
  decode_eq_some.mpr rfl

/-- Different texts have different encodings. -/
theorem encode_injective : Function.Injective encode := by
  intro first second same
  have decoded := decode_encode first
  rw [same, decode_encode] at decoded
  exact (Option.some.inj decoded).symm

/-! ## Characters of a single byte -/

/-- A character below 128 is encoded as itself. -/
theorem encodeChar_of_lt {c : Char} (ascii : c.toNat < 128) :
    String.utf8EncodeChar c = [UInt8.ofNat c.toNat] := by
  have small : c.val.toNat ≤ 127 := by
    change c.toNat ≤ 127
    omega
  unfold String.utf8EncodeChar
  exact if_pos small

/-- Each character of an ASCII text is one byte. -/
theorem encode_eq_map {text : List Char} (ascii : ∀ c ∈ text, c.toNat < 128) :
    encode text = text.map fun c => c.toNat.toUInt8 := by
  induction text with
  | nil => rfl
  | cons c text inductionHypothesis =>
      rw [List.forall_mem_cons] at ascii
      rw [encode_cons, encodeChar_of_lt ascii.1, inductionHypothesis ascii.2]
      rfl

/-- An ASCII text has as many characters as bytes. -/
theorem length_encode {text : List Char} (ascii : ∀ c ∈ text, c.toNat < 128) :
    (encode text).length = text.length := by
  rw [encode_eq_map ascii, List.length_map]

/-- The first bytes of an ASCII text are its first characters. -/
theorem take_encode
    {text : List Char}
    (ascii : ∀ c ∈ text, c.toNat < 128)
    (length : Nat) : (encode text).take length = encode (text.take length) := by
  rw [encode_eq_map ascii, encode_eq_map fun c member =>
    ascii c (List.mem_of_mem_take member), List.map_take]

/-- The bytes of any other character are at least 128. -/
theorem le_of_mem_encodeChar
    {c : Char}
    (wide : 128 ≤ c.toNat)
    {byte : UInt8}
    (member : byte ∈ String.utf8EncodeChar c) :
    128 ≤ byte.toNat := by
  have large : ¬c.val.toNat ≤ 127 := by
    change ¬c.toNat ≤ 127
    omega
  simp only [String.utf8EncodeChar] at member
  split at member
  · omega
  · split at member
    · simp at member
      rcases member with rfl | rfl <;> simp <;> omega
    · split at member
      · simp at member
        rcases member with rfl | rfl | rfl <;> simp <;> omega
      · simp at member
        rcases member with rfl | rfl | rfl | rfl <;> simp <;> omega

/-- A byte below 128 occurs in the encoding as often as its character in the text. -/
theorem count_encode
    {c : Char}
    (ascii : c.toNat < 128)
    (text : List Char) : (encode text).count (UInt8.ofNat c.toNat) = text.count c := by
  have ofCode : (UInt8.ofNat c.toNat).toNat = c.toNat := by
    rw [UInt8.toNat_ofNat']
    omega
  have inChar (first : Char) : (String.utf8EncodeChar first).count (UInt8.ofNat c.toNat) =
      if first == c then 1 else 0 := by
    by_cases narrow : first.toNat < 128
    · have sameByte : UInt8.ofNat first.toNat = UInt8.ofNat c.toNat ↔ first = c := by
        rw [← UInt8.toNat_inj, ofCode, UInt8.toNat_ofNat', ← Char.toNat_inj]
        omega
      rw [encodeChar_of_lt narrow, List.count_singleton]
      simp only [beq_iff_eq, sameByte]
    · have other : ¬(first == c) = true := by
        rw [beq_iff_eq]
        rintro rfl
        exact narrow ascii
      rw [if_neg other, List.count_eq_zero]
      intro member
      have large := le_of_mem_encodeChar (Nat.not_lt.mp narrow) member
      omega
  induction text with
  | nil => rfl
  | cons first text inductionHypothesis =>
      rw [encode_cons, List.count_append, inChar, inductionHypothesis, List.count_cons,
        Nat.add_comm]

/-- A byte below 128 occurs in the encoding if its character does in the text. -/
theorem mem_encode
    {c : Char}
    (ascii : c.toNat < 128)
    {text : List Char} : UInt8.ofNat c.toNat ∈ encode text ↔ c ∈ text := by
  rw [← List.count_pos_iff, count_encode ascii, List.count_pos_iff]

/-- Encoded text can be cut at a byte below 128. -/
theorem exists_of_encode_eq_append_cons
    {text : List Char}
    {left right : List UInt8}
    {c : Char}
    (ascii : c.toNat < 128)
    (encoded : encode text = left ++ UInt8.ofNat c.toNat :: right) :
    ∃ before behind, text = before ++ c :: behind ∧
      encode before = left ∧ encode behind = right := by
  induction text generalizing left with
  | nil => simp at encoded
  | cons first text inductionHypothesis =>
      rw [encode_cons] at encoded
      by_cases narrow : first.toNat < 128
      · rw [encodeChar_of_lt narrow, List.singleton_append] at encoded
        cases left with
        | nil =>
            obtain ⟨same, rest⟩ := List.cons.inj encoded
            have sameCode := congrArg UInt8.toNat same
            simp only [UInt8.toNat_ofNat', Nat.reducePow] at sameCode
            have sameChar : first = c := Char.toNat_inj.mp (by omega)
            exact ⟨[], text, by rw [sameChar]; rfl, rfl, rest⟩
        | cons byte left =>
            obtain ⟨rfl, rest⟩ := List.cons.inj encoded
            obtain ⟨before, behind, rfl, rfl, rfl⟩ := inductionHypothesis rest
            exact ⟨first :: before, behind, rfl, by simp [encodeChar_of_lt narrow],
              rfl⟩
      · rcases List.append_eq_append_iff.mp encoded with
          ⟨extra, rfl, rest⟩ | ⟨extra, within, rest⟩
        · obtain ⟨before, behind, rfl, rfl, rfl⟩ := inductionHypothesis rest
          exact ⟨first :: before, behind, rfl, rfl, rfl⟩
        · cases extra with
          | nil =>
              obtain ⟨before, behind, rfl, isEmpty, rfl⟩ :=
                @inductionHypothesis [] rest.symm
              refine ⟨first :: before, behind, rfl, ?_, rfl⟩
              rw [encode_cons, isEmpty, within, List.append_nil, List.append_nil]
          | cons byte extra =>
              obtain ⟨rfl, -⟩ := List.cons.inj rest
              have large := le_of_mem_encodeChar (Nat.not_lt.mp narrow)
                (show UInt8.ofNat c.toNat ∈ _ by rw [within]; simp)
              simp only [UInt8.toNat_ofNat', Nat.reducePow] at large
              omega

/-- Decoding bytes around a character below 128. -/
theorem decode_append_cons
    {c : Char}
    (ascii : c.toNat < 128)
    (left right : List UInt8) :
    decode (left ++ UInt8.ofNat c.toNat :: right) =
      (decode left).bind fun before =>
        (decode right).map fun behind => before ++ c :: behind := by
  ext text
  simp only [Option.bind_eq_some_iff, Option.map_eq_some_iff, decode_eq_some]
  constructor
  · intro encoded
    obtain ⟨before, behind, rfl, isLeft, isRight⟩ :=
      exists_of_encode_eq_append_cons ascii encoded
    exact ⟨before, isLeft, behind, isRight, rfl⟩
  · rintro ⟨before, rfl, behind, rfl, rfl⟩
    simp [encodeChar_of_lt ascii]

/-- Decoding bytes behind an encoded text. -/
theorem decode_encode_append (before : List Char) (right : List UInt8) :
    decode (encode before ++ right) =
      (decode right).map fun behind => before ++ behind := by
  ext text
  simp only [Option.map_eq_some_iff, decode_eq_some]
  constructor
  · intro encoded
    have encodedArrays : before.utf8Encode ++ right.toByteArray =
        text.utf8Encode := by
      change (encode before).toByteArray ++ _ = (encode text).toByteArray
      rw [encoded, List.toByteArray_append]
    obtain ⟨behind, rfl⟩ :=
      List.isPrefix_of_utf8Encode_append_eq_utf8Encode _ encodedArrays
    rw [encode_append] at encoded
    exact ⟨behind, List.append_cancel_left encoded, rfl⟩
  · rintro ⟨behind, rfl, rfl⟩
    exact encode_append before behind

/-! ## Decoding with replacements -/

/-- The bounds of the byte behind the first byte of a character of several bytes, and
the number of its bytes. -/
def secondByte (first : UInt8) : Option (UInt8 × UInt8 × Nat) :=
  if first < 0xc2 then none
  else if first < 0xe0 then some (0x80, 0xbf, 2)
  else if first = 0xe0 then some (0xa0, 0xbf, 3)
  else if first = 0xed then some (0x80, 0x9f, 3)
  else if first < 0xf0 then some (0x80, 0xbf, 3)
  else if first = 0xf0 then some (0x90, 0xbf, 4)
  else if first < 0xf4 then some (0x80, 0xbf, 4)
  else if first = 0xf4 then some (0x80, 0x8f, 4)
  else none

/-- How many bytes behind the first one belong to the same character, as far as it is
there. -/
def followingBytes (first : UInt8) (rest : List UInt8) : Nat :=
  match secondByte first, rest with
  | some (low, high, length), second :: rest =>
      if low ≤ second ∧ second ≤ high then
        1 + ((rest.take (length - 2)).takeWhile fun byte =>
          0x80 ≤ byte && byte ≤ 0xbf).length
      else 0
  | _, _ => 0

/-- Decoding that puts U+FFFD in the place of every incomplete character. -/
def decodeReplace : List UInt8 → List Char
  | [] => []
  | first :: rest =>
      let count := followingBytes first rest
      (decode (first :: rest.take count)).getD [Char.ofNat 0xfffd] ++
        decodeReplace (rest.drop count)
termination_by bytes => bytes.length
decreasing_by exact Nat.lt_succ_of_le (List.drop_sublist _ _).length_le

end Utf8
end Library
