import Mathlib.Data.List.GetD
import Mathlib.Data.Nat.Bitwise

/-!
# Tables that grow with zeros, and bitmaps

A table whose entries behind its end count as a default does not change as a function of the
index when defaults are appended to it. A set of numbers can be kept in such a table of bytes:
number `8 * k + j` is bit `j` of byte `k`.
-/

namespace Library

/-- Appended defaults do not show. -/
theorem getD_append_replicate {α : Type*} (table : List α) (count index : ℕ) (default : α) :
    (table ++ List.replicate count default).getD index default = table.getD index default := by
  by_cases inside : index < table.length
  · rw [List.getD_append _ _ _ _ inside]
  · rw [List.getD_append_right _ _ _ _ (Nat.not_lt.mp inside), List.getD_eq_getElem?_getD,
      List.getElem?_getD_replicate_default_eq, List.getD_eq_default _ _ (Nat.not_lt.mp inside)]

/-- An entry behind a write to a table. -/
theorem getD_set {α : Type*} {table : List α} {place : ℕ} (inside : place < table.length)
    (index : ℕ) (entry default : α) :
    (table.set place entry).getD index default =
      if index = place then entry else table.getD index default := by
  rw [List.getD_eq_getElem?_getD, List.getD_eq_getElem?_getD]
  by_cases same : index = place
  · rw [if_pos same, same, List.getElem?_set_self inside, Option.getD_some]
  · rw [if_neg same, List.getElem?_set_ne fun equal => same equal.symm]

/-- A number and a power of two have no bit in common if and only if the number lacks that bit. -/
theorem and_one_shiftLeft_ne_zero (number bit : ℕ) :
    number &&& (1 <<< bit) ≠ 0 ↔ number.testBit bit = true := by
  rw [Nat.one_shiftLeft, Nat.and_two_pow]
  cases number.testBit bit with
  | false => simp
  | true => simp

namespace Bitmap

/-- The number is in the set. -/
def Member (bitmap : List UInt8) (number : ℕ) : Prop :=
  (bitmap.getD (number / 8) 0).toNat.testBit (number % 8) = true

instance (bitmap : List UInt8) (number : ℕ) : Decidable (Member bitmap number) :=
  inferInstanceAs (Decidable (_ = true))

/-- The bitmap with the bit of a number set. -/
def insert (bitmap : List UInt8) (number : ℕ) : List UInt8 :=
  bitmap.set (number / 8)
    (UInt8.ofNat ((bitmap.getD (number / 8) 0).toNat ||| (1 <<< (number % 8))))

/-- The empty bitmap has no member. -/
theorem not_member_nil (number : ℕ) : ¬Member [] number := by
  simp [Member]

/-- Zeros behind the end add no member. -/
theorem member_append_replicate (bitmap : List UInt8) (count number : ℕ) :
    Member (bitmap ++ List.replicate count 0) number ↔ Member bitmap number := by
  rw [Member, Member, getD_append_replicate]

/-- A bit of a byte behind setting one of its bits. -/
theorem testBit_or_one_shiftLeft (byte : UInt8) {bit other : ℕ} (isBit : other < 8) :
    (UInt8.ofNat (byte.toNat ||| (1 <<< bit))).toNat.testBit other =
      (byte.toNat.testBit other || decide (bit = other)) := by
  rw [UInt8.toNat_ofNat', Nat.testBit_mod_two_pow, decide_eq_true isBit, Bool.true_and,
    Nat.testBit_or, Nat.one_shiftLeft, Nat.testBit_two_pow]

/-- Numbers with the same byte and the same bit are the same. -/
theorem eq_iff_div_mod (first second : ℕ) :
    first = second ↔ first / 8 = second / 8 ∧ first % 8 = second % 8 := by
  omega

/-- Setting the bit of a number adds that number and no other. -/
theorem member_insert {bitmap : List UInt8} {number : ℕ} (inside : number / 8 < bitmap.length)
    (other : ℕ) :
    Member (insert bitmap number) other ↔ other = number ∨ Member bitmap other := by
  rw [Member, insert, getD_set inside]
  by_cases sameByte : other / 8 = number / 8
  · rw [if_pos sameByte, testBit_or_one_shiftLeft _ (Nat.mod_lt _ (by decide)), Bool.or_eq_true,
      decide_eq_true_eq, eq_iff_div_mod other number, Member, sameByte, or_comm, eq_comm,
      and_iff_right rfl]
  · rw [if_neg sameByte, eq_iff_div_mod other number, Member]
    constructor
    · exact Or.inr
    · rintro (⟨same, _⟩ | member)
      · exact absurd same sameByte
      · exact member

end Bitmap

end Library
