import Mathlib.Data.Nat.Notation

/-!
# Bytes as text

The encoding of bytes by 64 printable digits: three bytes become four digits, and one or two
bytes at the end are filled up with padding.

Main results:

- Definitions {lit}`encode` and {lit}`decode`: the encoding and its partial inverse.
- Theorem {lit}`decode_encode`: every encoded text decodes to its bytes.
-/

namespace Foundations.Base64

/-! ## Digits -/

/-- The digits in the order of their values. -/
def alphabet : List Char :=
  "ABCDEFGHIJKLMNOPQRSTUVWXYZabcdefghijklmnopqrstuvwxyz0123456789+/".toList

/-- What fills up the last group. -/
def pad : Char := '='

/-- The digit of a value. -/
def digit (n : ℕ) : Char := alphabet.getD n pad

/-- The value of a digit; other characters have none. -/
def value? (c : Char) : Option ℕ := alphabet.idxOf? c

/-- The value of the digit of a value. -/
theorem value?_digit {n : ℕ} (h : n < 64) : value? (digit n) = some n := by
  have hall : ∀ i : Fin 64, value? (digit i) = some (i : ℕ) := by decide +kernel
  exact hall ⟨n, h⟩

/-- Padding is not a digit. -/
theorem value?_pad : value? pad = none := by
  decide +kernel

/-! ## Groups -/

/-- The characters of bytes, group by group. -/
def encodeChars : List UInt8 → List Char
  | [] => []
  | [a] =>
      let n := a.toNat * 16
      [digit (n / 64), digit (n % 64), pad, pad]
  | [a, b] =>
      let n := a.toNat * 1024 + b.toNat * 4
      [digit (n / 4096), digit (n / 64 % 64), digit (n % 64), pad]
  | a :: b :: c :: rest =>
      let n := a.toNat * 65536 + b.toNat * 256 + c.toNat
      digit (n / 262144) :: digit (n / 4096 % 64) :: digit (n / 64 % 64) :: digit (n % 64) ::
        encodeChars rest

/-- The bytes of characters; {lean}`none` for what is not an encoding. -/
def decodeChars : List Char → Option (List UInt8)
  | [] => some []
  | w :: x :: y :: z :: rest =>
      match value? w, value? x, value? y, value? z with
      | some w, some x, some y, some z =>
          let n := w * 262144 + x * 4096 + y * 64 + z
          (decodeChars rest).map fun bytes =>
            UInt8.ofNat (n / 65536) :: UInt8.ofNat (n / 256 % 256) :: UInt8.ofNat (n % 256) :: bytes
      | some w, some x, some y, none =>
          let n := w * 4096 + x * 64 + y
          if z = pad ∧ rest = [] then
            some [UInt8.ofNat (n / 1024), UInt8.ofNat (n / 4 % 256)]
          else none
      | some w, some x, none, none =>
          if y = pad ∧ z = pad ∧ rest = [] then some [UInt8.ofNat ((w * 64 + x) / 16)] else none
      | _, _, _, _ => none
  | _ => none

/-- A byte is known from its number. -/
theorem ofNat_eq {a : UInt8} {n : ℕ} (h : n = a.toNat) : UInt8.ofNat n = a := by
  rw [h, UInt8.ofNat_toNat]

/-- The characters of bytes decode to the bytes. -/
theorem decodeChars_encodeChars (bytes : List UInt8) :
    decodeChars (encodeChars bytes) = some bytes := by
  induction bytes using encodeChars.induct with
  | case1 => rfl
  | case2 a =>
      have ha := a.toNat_lt
      simp only [encodeChars, decodeChars]
      rw [value?_digit (by omega), value?_digit (by omega), value?_pad]
      simp only [and_self, if_true, Option.some.injEq, List.cons.injEq, and_true]
      apply ofNat_eq
      omega
  | case3 a b =>
      have ha := a.toNat_lt
      have hb := b.toNat_lt
      simp only [encodeChars, decodeChars]
      rw [value?_digit (by omega), value?_digit (by omega), value?_digit (by omega), value?_pad]
      simp only [and_self, if_true, Option.some.injEq, List.cons.injEq, and_true]
      constructor <;> apply ofNat_eq <;> omega
  | case4 a b c rest ih =>
      have ha := a.toNat_lt
      have hb := b.toNat_lt
      have hc := c.toNat_lt
      simp only [encodeChars, decodeChars]
      rw [value?_digit (by omega), value?_digit (by omega), value?_digit (by omega),
        value?_digit (by omega), ih]
      simp only [Option.map_some, Option.some.injEq, List.cons.injEq, and_true]
      refine ⟨?_, ?_, ?_⟩ <;> apply ofNat_eq <;> omega

/-! ## Texts -/

/-- The text of bytes. -/
def encode (bytes : List UInt8) : String := String.ofList (encodeChars bytes)

/-- The bytes of a text. -/
def decode (text : String) : Option (List UInt8) := decodeChars text.toList

/-- Every encoded text decodes to its bytes. -/
theorem decode_encode (bytes : List UInt8) : decode (encode bytes) = some bytes := by
  rw [decode, encode, String.toList_ofList]
  exact decodeChars_encodeChars bytes

example : encode [102, 111, 111, 98] = "Zm9vYg==" := by decide +kernel

end Foundations.Base64
