import Mathlib.Data.Nat.Bitwise
import Mathlib.Tactic.Ring

/-!
# Little-endian numbers

A number in a row of bytes, the least significant byte first. The bytes are a list, or a part of a
memory that gives each address a byte.
-/

namespace Library

/-- The number that some bytes make. -/
def leValue : List UInt8 → ℕ
  | [] => 0
  | byte :: bytes => byte.toNat + 256 * leValue bytes

/-- The bytes of a number, as many as asked for. -/
def leBytes : ℕ → ℕ → List UInt8
  | 0, _ => []
  | count + 1, value => UInt8.ofNat value :: leBytes count (value / 256)

@[simp] theorem leValue_nil : leValue [] = 0 := rfl

@[simp] theorem leValue_cons (byte : UInt8) (bytes : List UInt8) :
    leValue (byte :: bytes) = byte.toNat + 256 * leValue bytes := rfl

@[simp] theorem length_leBytes (count value : ℕ) : (leBytes count value).length = count := by
  induction count generalizing value with
  | zero => rfl
  | succ count inductionHypothesis =>
      rw [leBytes, List.length_cons, inductionHypothesis]

/-- The bytes of a number that is not too large make that number. -/
theorem leValue_leBytes {count value : ℕ} (small : value < 256 ^ count) :
    leValue (leBytes count value) = value := by
  induction count generalizing value with
  | zero =>
      rw [Nat.pow_zero, Nat.lt_one_iff] at small
      rw [small]
      rfl
  | succ count inductionHypothesis =>
      rw [Nat.pow_succ] at small
      have quotient : value / 256 < 256 ^ count := Nat.div_lt_of_lt_mul (by omega)
      rw [leBytes, leValue_cons, inductionHypothesis quotient, UInt8.toNat_ofNat']
      exact Nat.mod_add_div value 256

/-- The number that some bytes make is below the power of their number. -/
theorem leValue_lt (bytes : List UInt8) : leValue bytes < 256 ^ bytes.length := by
  induction bytes with
  | nil => exact Nat.zero_lt_one
  | cons byte bytes inductionHypothesis =>
      have isByte := byte.toNat_lt
      rw [leValue_cons, List.length_cons, Nat.pow_succ]
      omega

/-- A number put behind a smaller one by a shift. -/
theorem or_shiftLeft_of_lt {low shift : ℕ} (small : low < 2 ^ shift) (high : ℕ) :
    low ||| (high <<< shift) = low + high * 2 ^ shift := by
  rw [Nat.or_comm, ← Nat.shiftLeft_add_eq_or_of_lt small, Nat.shiftLeft_eq, Nat.add_comm]

/-- Four bytes put together by shifts. -/
theorem or_shiftLeft_eq_leValue (first second third fourth : UInt8) :
    first.toNat ||| (second.toNat <<< 8) ||| (third.toNat <<< 16) ||| (fourth.toNat <<< 24) =
      leValue [first, second, third, fourth] := by
  have isFirst := first.toNat_lt
  have isSecond := second.toNat_lt
  have isThird := third.toNat_lt
  have two : first.toNat + second.toNat * 2 ^ 8 < 2 ^ 16 := by omega
  have three : first.toNat + second.toNat * 2 ^ 8 + third.toNat * 2 ^ 16 < 2 ^ 24 := by omega
  rw [or_shiftLeft_of_lt isFirst, or_shiftLeft_of_lt two, or_shiftLeft_of_lt three]
  simp only [leValue_cons, leValue_nil]
  ring

/-! ## Memory -/

/-- The bytes of a memory from an address on. -/
def window (memory : ℕ → UInt8) (start count : ℕ) : List UInt8 :=
  (List.range count).map fun index => memory (start + index)

/-- The number in some bytes of a memory. -/
def word (memory : ℕ → UInt8) (start count : ℕ) : ℕ :=
  leValue (window memory start count)

@[simp] theorem length_window (memory : ℕ → UInt8) (start count : ℕ) :
    (window memory start count).length = count := by
  rw [window, List.length_map, List.length_range]

/-- A number in some bytes is below the power of their number. -/
theorem word_lt (memory : ℕ → UInt8) (start count : ℕ) : word memory start count < 256 ^ count := by
  have bound := leValue_lt (window memory start count)
  rwa [length_window] at bound

end Library
