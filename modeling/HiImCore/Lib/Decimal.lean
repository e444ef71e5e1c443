import Mathlib.Data.List.TakeWhile

/-! Decimal numbers in byte strings, as the conversions of the C++ library read them
(`std::stoi`, `std::stoull`), and as they are printed. -/

namespace HiImCore.Decimal

def ascii (text : String) : List UInt8 := text.toList.map fun c => UInt8.ofNat c.toNat

def isSpace (byte : UInt8) : Bool := byte == 32 || (9 ≤ byte && byte ≤ 13)

def isDigit (byte : UInt8) : Bool := 48 ≤ byte && byte ≤ 57

def numeric (digits : List UInt8) : Nat := digits.foldl (fun value digit => 10 * value + (digit.toNat - 48)) 0

def signed : List UInt8 → Bool × List UInt8
  | 45 :: rest => (true, rest)
  | 43 :: rest => (false, rest)
  | text => (false, text)

/-- Blanks, a sign and digits, up to the first byte that is no digit: the sign and the magnitude, or
`none` without any digit. -/
def scan (text : List UInt8) : Option (Bool × Nat) :=
  let (negative, rest) := signed (text.dropWhile isSpace)
  let digits := rest.takeWhile isDigit
  if digits.isEmpty then none else some (negative, numeric digits)

/-- `std::stoi`; `none` where it throws. -/
def stoi (text : List UInt8) : Option Int :=
  match scan text with
  | none => none
  | some (negative, magnitude) =>
      let value : Int := if negative then -magnitude else magnitude
      if -2147483648 ≤ value ∧ value ≤ 2147483647 then some value else none

/-- `std::stoull`, which negates in 64 bits; `none` where it throws. -/
def stoull (text : List UInt8) : Option Nat :=
  match scan text with
  | none => none
  | some (negative, magnitude) =>
      if magnitude < UInt64.size then
        some (if negative then (UInt64.size - magnitude) % UInt64.size else magnitude)
      else none

def decimal (n : Nat) : List UInt8 :=
  if n < 10 then [UInt8.ofNat (48 + n)] else decimal (n / 10) ++ [UInt8.ofNat (48 + n % 10)]

def integer (i : Int) : List UInt8 := if i < 0 then 45 :: decimal i.natAbs else decimal i.natAbs

section Digits

theorem digit_isDigit {d : Nat} (small : d < 10) : isDigit (UInt8.ofNat (48 + d)) = true := by
  revert d
  decide

theorem digit_value {d : Nat} (small : d < 10) : (UInt8.ofNat (48 + d)).toNat - 48 = d := by
  revert d
  decide

theorem decimal_isDigit (n : Nat) : ∀ digit ∈ decimal n, isDigit digit = true := by
  induction n using Nat.strongRecOn with
  | ind n ih =>
      intro digit member
      rw [decimal] at member
      split at member
      · rename_i small
        rw [List.mem_singleton.mp member]
        exact digit_isDigit small
      · rcases List.mem_append.mp member with high | low
        · exact ih (n / 10) (by omega) digit high
        · rw [List.mem_singleton.mp low]
          exact digit_isDigit (Nat.mod_lt _ (by decide))

theorem decimal_ne_nil (n : Nat) : decimal n ≠ [] := by
  rw [decimal]
  split <;> simp

theorem numeric_decimal (n : Nat) : numeric (decimal n) = n := by
  induction n using Nat.strongRecOn with
  | ind n ih =>
      rw [decimal]
      split
      · rename_i small
        exact (Nat.zero_add _).trans (digit_value small)
      · have high := ih (n / 10) (by omega)
        have low := digit_value (Nat.mod_lt n (by decide : 0 < 10))
        unfold numeric at high ⊢
        rw [List.foldl_append, high, List.foldl_cons, List.foldl_nil, low]
        omega

theorem takeWhile_decimal (n : Nat) {rest : List UInt8}
    (ends : rest.head?.all (fun byte => !isDigit byte) = true) :
    (decimal n ++ rest).takeWhile isDigit = decimal n := by
  rw [List.takeWhile_append_of_pos (decimal_isDigit n)]
  cases rest with
  | nil => rw [List.takeWhile_nil, List.append_nil]
  | cons byte later =>
      have other : isDigit byte = false := by simpa using ends
      rw [List.takeWhile_cons_of_neg (by rw [other]; decide), List.append_nil]

end Digits

section Texts

theorem digit_plain {byte : UInt8} (digit : isDigit byte = true) :
    isSpace byte = false ∧ byte ≠ 45 ∧ byte ≠ 43 := by
  have large : 48 ≤ byte.toNat := by
    simp only [isDigit, Bool.and_eq_true, decide_eq_true_eq, UInt8.le_iff_toNat_le] at digit
    exact digit.1
  refine ⟨?_, ?_, ?_⟩
  · simp only [isSpace, Bool.or_eq_false_iff, beq_eq_false_iff_ne, ne_eq, Bool.and_eq_false_iff,
      decide_eq_false_iff_not, UInt8.le_iff_toNat_le]
    constructor
    · rintro rfl
      exact absurd large (by decide)
    · right
      have small : (13 : UInt8).toNat = 13 := rfl
      omega
  · rintro rfl
    exact absurd large (by decide)
  · rintro rfl
    exact absurd large (by decide)

variable {rest : List UInt8} (ends : rest.head?.all (fun byte => !isDigit byte) = true)

theorem dropWhile_decimal (n : Nat) :
    (decimal n ++ rest).dropWhile isSpace = decimal n ++ rest ∧
      signed (decimal n ++ rest) = (false, decimal n ++ rest) := by
  have digits := decimal_isDigit n
  cases shape : decimal n with
  | nil => exact absurd shape (decimal_ne_nil n)
  | cons first later =>
      rw [shape] at digits
      obtain ⟨plain, minus, plus⟩ := digit_plain (digits first List.mem_cons_self)
      constructor
      · rw [List.cons_append, List.dropWhile_cons_of_neg (by rw [plain]; decide)]
      · rw [List.cons_append]
        unfold signed
        split
        · rename_i same
          exact absurd (List.cons.inj same).1 minus
        · rename_i same
          exact absurd (List.cons.inj same).1 plus
        · rfl

include ends

theorem scan_decimal (n : Nat) : scan (decimal n ++ rest) = some (false, n) := by
  obtain ⟨blank, sign⟩ := @dropWhile_decimal rest n
  unfold scan
  rw [blank, sign]
  dsimp only
  rw [takeWhile_decimal n ends, if_neg (by simpa using decimal_ne_nil n), numeric_decimal]

theorem scan_negative (n : Nat) : scan (45 :: decimal n ++ rest) = some (true, n) := by
  have sign : signed (45 :: (decimal n ++ rest)) = (true, decimal n ++ rest) := rfl
  unfold scan
  rw [List.cons_append, List.dropWhile_cons_of_neg (by decide), sign]
  dsimp only
  rw [takeWhile_decimal n ends, if_neg (by simpa using decimal_ne_nil n), numeric_decimal]

theorem stoi_integer {i : Int} (least : -2147483648 ≤ i) (most : i ≤ 2147483647) :
    stoi (integer i ++ rest) = some i := by
  by_cases negative : i < 0
  · have value : -(i.natAbs : Int) = i := by omega
    simp only [stoi, integer, negative, if_true, scan_negative ends, value, least, most, and_self]
  · have value : (i.natAbs : Int) = i := by omega
    simp only [stoi, integer, negative, if_false, scan_decimal ends, Bool.false_eq_true, value, least,
      most, and_self, if_true]

theorem stoull_decimal {n : Nat} (small : n < UInt64.size) : stoull (decimal n ++ rest) = some n := by
  simp only [stoull, scan_decimal ends, small, if_true, Bool.false_eq_true, if_false]

end Texts

end HiImCore.Decimal
